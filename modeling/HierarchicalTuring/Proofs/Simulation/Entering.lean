import HierarchicalTuring.Proofs.Simulation.CallDepth

/-! # Entering what a state calls

* `Frame.CallChain p frame links`: the state of a frame calls a machine, the start state of that one
  calls the next, and so on. Each link is a name that was called with the frame it is entered with,
  and `Frame.chainEnd` is the frame that the chain has come to.
* A chain that ends enters no machine twice (`CallChain.nodup_of_callsEnd`). One that enters a
  machine twice goes on for any number of calls (`endless_iff_repeats`).
* `CallStack.enter_of_callChain`: entering pushes the frames of a chain one after the other, as far as
  the limit allows.
* `enter_follows_call_chain`: what entering comes to, in terms of the chain.
-/

set_option autoImplicit false

namespace HierarchicalTuring

variable {p : Project}

namespace Frame

/-- The state calls the machine with a name, which is entered in its start state. -/
def Enters (p : Project) (caller : Frame) (name : String) (callee : Frame) : Prop :=
  caller.state.submachine = some name ∧ p.machine? name = some callee.machine ∧
    callee.machine.start? = some (callee.handle, callee.state)

/-- Calls that follow one another, the first one made by the state of a frame. -/
inductive CallChain (p : Project) : Frame → List (String × Frame) → Prop
  | nil (frame : Frame) : CallChain p frame []
  | cons {frame callee : Frame} {name : String} {links : List (String × Frame)} :
      frame.Enters p name callee → CallChain p callee links →
      CallChain p frame ((name, callee) :: links)

/-- The frame that a chain of calls has come to. -/
def chainEnd (frame : Frame) : List (String × Frame) → Frame
  | [] => frame
  | (_, callee) :: links => chainEnd callee links

variable {frame callee : Frame} {name : String} {links : List (String × Frame)}

/-! ## Calls -/

theorem enters_iff : frame.Enters p name callee ↔ frame.callee? p = .ok (some (name, callee)) := by
  rw [callee?_eq_some_iff]
  constructor
  · rintro ⟨hsub, hm, hstart⟩
    exact ⟨hsub, callee.machine, hm, start_eq_ok_iff.mpr ⟨rfl, hstart⟩⟩
  · rintro ⟨hsub, m, hm, hstart⟩
    obtain ⟨rfl, hfound⟩ := start_eq_ok_iff.mp hstart
    exact ⟨hsub, hm, hfound⟩

/-- The frame of a call depends on the name alone. -/
theorem Enters.callee_eq {caller caller' callee' : Frame} (h : caller.Enters p name callee)
    (h' : caller'.Enters p name callee') : callee = callee' := by
  obtain ⟨-, hm, hstart⟩ := h
  obtain ⟨-, hm', hstart'⟩ := h'
  rw [hm] at hm'
  have hmachine : callee.machine = callee'.machine := Option.some.inj hm'
  rw [hmachine, hstart'] at hstart
  cases callee
  cases callee'
  simp_all

/-- A state that enters no machine calls none, or one that is missing or has no start state. -/
theorem not_enters_iff : (∀ name callee, ¬ frame.Enters p name callee) ↔
    frame.state.submachine = none ∨ ∃ name, frame.state.submachine = some name ∧
      (p.machine? name = none ∨ ∃ m, p.machine? name = some m ∧ m.start? = none) := by
  constructor
  · intro h
    cases hsub : frame.state.submachine with
    | none => exact .inl rfl
    | some name =>
      refine .inr ⟨name, rfl, ?_⟩
      cases hm : p.machine? name with
      | none => exact .inl rfl
      | some m =>
        cases hstart : m.start? with
        | none => exact .inr ⟨m, rfl, hstart⟩
        | some found => exact absurd ⟨hsub, hm, hstart⟩ (h name ⟨m, found.1, found.2⟩)
  · rintro (hnone | ⟨name, hsub, hm | ⟨m, hm, hstart⟩⟩) called callee ⟨hcalled, hmachine, hfound⟩
    · rw [hnone] at hcalled
      cases hcalled
    · rw [hsub] at hcalled
      cases hcalled
      rw [hm] at hmachine
      cases hmachine
    · rw [hsub] at hcalled
      cases hcalled
      rw [hm] at hmachine
      cases hmachine
      rw [hstart] at hfound
      cases hfound

/-! ## Chains of calls -/

namespace CallChain

theorem concat_iff : CallChain p frame (links ++ [(name, callee)]) ↔
    CallChain p frame links ∧ (frame.chainEnd links).Enters p name callee := by
  constructor
  · intro h
    induction links generalizing frame with
    | nil =>
      cases h with
      | cons hcall _ => exact ⟨.nil frame, hcall⟩
    | cons link links ih =>
      cases h with
      | cons hfirst hrest =>
        obtain ⟨hlinks, hcall⟩ := ih hrest
        exact ⟨.cons hfirst hlinks, hcall⟩
  · rintro ⟨h, hcall⟩
    induction h with
    | nil frame => exact .cons hcall (.nil callee)
    | cons hfirst _ ih => exact .cons hfirst (ih hcall)

theorem callsEnd (h : CallChain p frame links)
    (hend : ∀ name callee, ¬ (frame.chainEnd links).Enters p name callee) :
    CallsEnd p frame links.length := by
  induction h with
  | nil frame => exact .last fun name callee hcallee => hend name callee (enters_iff.mpr hcallee)
  | cons hcall _ ih => exact .call (enters_iff.mp hcall) (ih hend)

/-- A chain of calls runs along the one that ends. -/
theorem callsEnd_of_mem (h : CallChain p frame links) {k : Nat} (hends : CallsEnd p frame k) :
    links.length ≤ k ∧ ∀ link ∈ links, ∃ l, CallsEnd p link.2 l ∧ l < k := by
  induction h generalizing k with
  | nil frame => exact ⟨Nat.zero_le k, fun link hlink => absurd hlink List.not_mem_nil⟩
  | @cons frame callee name links hcall _ ih =>
    cases hends with
    | last hnone => exact absurd (enters_iff.mp hcall) (hnone name callee)
    | @call _ callee' name' k hcall' hrest =>
      rw [enters_iff.mp hcall] at hcall'
      cases hcall'
      obtain ⟨hlength, hmem⟩ := ih hrest
      refine ⟨by simpa using hlength, List.forall_mem_cons.mpr ⟨⟨k, hrest, Nat.lt_succ_self k⟩, ?_⟩⟩
      intro link hlink
      obtain ⟨l, hl, hlt⟩ := hmem link hlink
      exact ⟨l, hl, Nat.lt_succ_of_lt hlt⟩

theorem exists_enters (h : CallChain p frame links) :
    ∀ link ∈ links, ∃ caller : Frame, caller.Enters p link.1 link.2 := by
  induction h with
  | nil frame => exact fun link hlink => absurd hlink List.not_mem_nil
  | @cons frame callee name links hcall _ ih =>
    exact List.forall_mem_cons.mpr ⟨⟨frame, hcall⟩, ih⟩

/-- A machine that is entered again would begin the same chain with fewer calls left. -/
theorem nodup_of_callsEnd (h : CallChain p frame links) {k : Nat} (hends : CallsEnd p frame k) :
    (links.map Prod.fst).Nodup := by
  induction h generalizing k with
  | nil frame => exact List.nodup_nil
  | @cons frame callee name links hcall hlinks ih =>
    cases hends with
    | last hnone => exact absurd (enters_iff.mp hcall) (hnone name callee)
    | @call _ callee' name' k hcall' hrest =>
      rw [enters_iff.mp hcall] at hcall'
      cases hcall'
      refine List.nodup_cons.mpr ⟨fun hmem => ?_, ih hrest⟩
      obtain ⟨⟨_, again⟩, hlink, rfl⟩ := List.mem_map.mp hmem
      obtain ⟨caller, hagain⟩ := hlinks.exists_enters _ hlink
      obtain ⟨l, hl, hlt⟩ := (hlinks.callsEnd_of_mem hrest).2 _ hlink
      rw [← hcall.callee_eq hagain] at hl
      have heq := hrest.unique hl
      omega

theorem length_le_of_nodup (h : CallChain p frame links) (hp : p.WellFormed)
    (hnodup : (links.map Prod.fst).Nodup) : links.length ≤ p.machineCount := by
  have hlive : ∀ name ∈ links.map Prod.fst, name ∈ p.machineNames := by
    intro name hname
    obtain ⟨link, hlink, rfl⟩ := List.mem_map.mp hname
    obtain ⟨_, -, hm, -⟩ := h.exists_enters link hlink
    exact hp.mem_names_of_machine? hm
  simpa using hp.length_le_machineCount hnodup hlive

end CallChain

/-- The chain that ends, in full. -/
theorem CallsEnd.exists_callChain {k : Nat} (h : CallsEnd p frame k) : ∃ links,
    CallChain p frame links ∧ ∀ name callee, ¬ (frame.chainEnd links).Enters p name callee := by
  induction h with
  | @last frame hnone =>
    exact ⟨[], .nil frame, fun name callee hcall => hnone name callee (enters_iff.mp hcall)⟩
  | @call frame callee name k hcall _ ih =>
    obtain ⟨links, hlinks, hend⟩ := ih
    exact ⟨(name, callee) :: links, .cons (enters_iff.mpr hcall) hlinks, hend⟩

theorem exists_callChain_of_endless (h : ∀ k, ¬ CallsEnd p frame k) (k : Nat) :
    ∃ links, CallChain p frame links ∧ links.length = k := by
  induction k generalizing frame with
  | zero => exact ⟨[], .nil frame, rfl⟩
  | succ k ih =>
    obtain ⟨name, callee, hcall, hrest⟩ := exists_callee_of_endless h
    obtain ⟨links, hlinks, hlength⟩ := ih hrest
    exact ⟨(name, callee) :: links, .cons (enters_iff.mpr hcall) hlinks, by simp [hlength]⟩

/-- A chain of calls never ends exactly if it enters some machine twice. -/
theorem endless_iff_repeats (hp : p.WellFormed) : (∀ k, ¬ CallsEnd p frame k) ↔
    ∃ links, CallChain p frame links ∧ ¬ (links.map Prod.fst).Nodup := by
  constructor
  · intro hendless
    -- There are fewer machines than calls in a chain that is long enough.
    obtain ⟨links, hlinks, hlength⟩ := exists_callChain_of_endless hendless (p.machineCount + 1)
    refine ⟨links, hlinks, fun hnodup => ?_⟩
    have hbound := hlinks.length_le_of_nodup hp hnodup
    omega
  · rintro ⟨links, hlinks, hrepeats⟩ k hends
    exact hrepeats (hlinks.nodup_of_callsEnd hends)

theorem endless_iff_exists_callChain : (∀ k, ¬ CallsEnd p frame k) ↔
    ∀ k, ∃ links, CallChain p frame links ∧ links.length = k := by
  refine ⟨exists_callChain_of_endless, fun h k hends => ?_⟩
  obtain ⟨links, hlinks, hlength⟩ := h (k + 1)
  have hbound := (hlinks.callsEnd_of_mem hends).1
  omega

end Frame

namespace CallStack

/-! ## Pushing the frames of a chain -/

/-- The stack with frames on top, the last one uppermost. -/
def pushAll (c : CallStack) (frames : List Frame) : CallStack :=
  frames.foldl push c

@[simp] theorem pushAll_nil (c : CallStack) : c.pushAll [] = c := rfl

@[simp] theorem pushAll_cons (c : CallStack) (frame : Frame) (frames : List Frame) :
    c.pushAll (frame :: frames) = (c.push frame).pushAll frames := rfl

@[simp] theorem frames_pushAll (c : CallStack) (frames : List Frame) :
    (c.pushAll frames).frames = c.frames ++ frames := by
  induction frames generalizing c with
  | nil => simp
  | cons frame frames ih => simp [ih]

theorem current_pushAll (c : CallStack) (links : List (String × Frame)) :
    (c.pushAll (links.map Prod.snd)).current = c.current.chainEnd links := by
  induction links generalizing c with
  | nil => rfl
  | cons link links ih => exact ih (c.push link.2)

/-- Entering follows a chain of calls as far as the limit allows. -/
theorem enter_of_callChain {c : CallStack} {links : List (String × Frame)}
    (h : c.current.CallChain p links) (extra : Nat) :
    c.enter p (links.length + extra) = (c.pushAll (links.map Prod.snd)).enter p extra := by
  induction links generalizing c with
  | nil => rw [List.length_nil, Nat.zero_add, List.map_nil, pushAll_nil]
  | cons link links ih =>
    cases h with
    | cons hcall hlinks =>
      rw [List.length_cons, Nat.add_right_comm,
        enter_succ_of_callee (Frame.enters_iff.mp hcall), ih hlinks]
      rfl

/-- One call beyond the limit ends the entering. -/
theorem enter_of_callChain_concat {c : CallStack} {links : List (String × Frame)} {name : String}
    {callee : Frame} (h : c.current.CallChain p links)
    (hcall : (c.current.chainEnd links).Enters p name callee) :
    c.enter p links.length =
      (.error (.infiniteSubmachineLoop name (p.machineCount + 1)),
        c.pushAll (links.map Prod.snd)) := by
  have hentered := enter_of_callChain h 0
  have hcallee := Frame.enters_iff.mp hcall
  rw [← current_pushAll] at hcallee
  rw [Nat.add_zero] at hentered
  rw [hentered]
  simp only [enter, hcallee]

end CallStack

namespace Simulation

variable {s : Simulation} {links : List (String × Frame)}

/-- A chain that ends is entered in full, and its last state says with what result. -/
theorem enterSubmachines_of_callChain (hp : s.project.WellFormed)
    (h : s.current.CallChain s.project links)
    (hend : ∀ name callee, ¬ (s.current.chainEnd links).Enters s.project name callee) :
    links.length ≤ s.project.machineCount ∧ ∃ stack : CallStack,
      stack.frames = s.frames ++ links.map Prod.snd ∧
      stack.current = s.current.chainEnd links ∧
      s.enterSubmachines =
        (((s.current.chainEnd links).callee? s.project).map fun _ => (), { s with stack }) := by
  have hlength := (h.callsEnd hend).le_machineCount hp
  obtain ⟨extra, hextra⟩ := Nat.le.dest hlength
  have hentered := CallStack.enter_of_callChain (c := s.stack) h extra
  have hcurrent := CallStack.current_pushAll s.stack links
  have hlast : ∀ name callee, (s.stack.pushAll (links.map Prod.snd)).current.callee? s.project ≠
      .ok (some (name, callee)) := by
    intro name callee hcallee
    rw [hcurrent] at hcallee
    exact hend name callee (Frame.enters_iff.mpr hcallee)
  rw [hextra, CallStack.enter_of_last hlast, hcurrent] at hentered
  refine ⟨hlength, s.stack.pushAll (links.map Prod.snd), CallStack.frames_pushAll _ _, hcurrent, ?_⟩
  unfold enterSubmachines
  rw [hentered]
  rfl

/-- A chain that does not end is cut at the first call beyond the number of machines. -/
theorem enterSubmachines_of_endless (hendless : ∀ k, ¬ s.current.CallsEnd s.project k) :
    ∃ links name callee, s.current.CallChain s.project (links ++ [(name, callee)]) ∧
      links.length = s.project.machineCount ∧ s.enterSubmachines.1 =
        .error (.infiniteSubmachineLoop name (s.project.machineCount + 1)) := by
  obtain ⟨all, hall, hlength⟩ :=
    Frame.exists_callChain_of_endless hendless (s.project.machineCount + 1)
  obtain ⟨links, ⟨name, callee⟩, rfl⟩ : ∃ links link, all = links ++ [link] := by
    rcases List.eq_nil_or_concat all with rfl | ⟨links, link, rfl⟩
    · cases hlength
    · exact ⟨links, link, List.concat_eq_append⟩
  rw [List.length_append, List.length_singleton, Nat.add_right_cancel_iff] at hlength
  obtain ⟨hlinks, hcall⟩ := Frame.CallChain.concat_iff.mp hall
  have hentered := CallStack.enter_of_callChain_concat (c := s.stack) hlinks hcall
  rw [hlength] at hentered
  refine ⟨links, name, callee, hall, hlength, ?_⟩
  unfold enterSubmachines
  rw [hentered]

/-- A chain that ends is not reported as a loop. -/
theorem enterSubmachines_ne_loop (hp : s.project.WellFormed) {k : Nat}
    (hends : s.current.CallsEnd s.project k) (name : String) (depth : Nat) :
    s.enterSubmachines.1 ≠ .error (.infiniteSubmachineLoop name depth) := by
  obtain ⟨links, hlinks, hend⟩ := hends.exists_callChain
  obtain ⟨-, stack, -, -, hentered⟩ := enterSubmachines_of_callChain hp hlinks hend
  rw [hentered]
  rcases hcallee : (s.current.chainEnd links).callee? s.project with e | called
  · rintro heq
    cases heq
    obtain ⟨called, -, ⟨-, he⟩ | ⟨m, -, hstart⟩⟩ := Frame.callee?_eq_error_iff.mp hcallee
    · cases he
    · cases (Frame.start_eq_error_iff.mp hstart).2
  · nofun

/-- Entering follows the chain of calls that the state of the current frame begins. A chain that
ends at a state without a call is entered in full, at most one frame for each machine, and at the
first call that fails the fault is reported. A chain that enters some machine twice has no end, and
this alone is reported as a loop, one call beyond the number of machines. There is no other case. -/
theorem enter_follows_call_chain {next : Identity} (hp : s.project.Built next) :
    (∀ links, s.current.CallChain s.project links →
      (s.current.chainEnd links).state.submachine = none →
      links.length ≤ s.project.machineCount ∧ ∃ stack : CallStack,
        stack.frames = s.frames ++ links.map Prod.snd ∧
        stack.current = s.current.chainEnd links ∧
        s.enterSubmachines = (.ok (), { s with stack })) ∧
    (∀ links name, s.current.CallChain s.project links →
      (s.current.chainEnd links).state.submachine = some name →
      (s.project.machine? name = none → s.enterSubmachines.1 = .error (.submachineNotFound name
        (s.current.chainEnd links).state.name (s.current.chainEnd links).machine.name)) ∧
      ∀ m, s.project.machine? name = some m → m.start? = none →
        s.enterSubmachines.1 = .error (.startStateNotFound name)) ∧
    ((∃ name depth, s.enterSubmachines.1 = .error (.infiniteSubmachineLoop name depth)) ↔
      ∃ links, s.current.CallChain s.project links ∧ ¬ (links.map Prod.fst).Nodup) ∧
    ((∃ links, s.current.CallChain s.project links ∧ ¬ (links.map Prod.fst).Nodup) ↔
      ∀ k, ∃ links, s.current.CallChain s.project links ∧ links.length = k) ∧
    (∀ name depth, s.enterSubmachines.1 = .error (.infiniteSubmachineLoop name depth) →
      depth = s.project.machineCount + 1 ∧ ∃ links callee,
        s.current.CallChain s.project (links ++ [(name, callee)]) ∧
        links.length = s.project.machineCount) ∧
    ((∃ links, s.current.CallChain s.project links ∧
        (s.current.chainEnd links).state.submachine = none) ∨
      (∃ links name, s.current.CallChain s.project links ∧
        (s.current.chainEnd links).state.submachine = some name ∧
        (s.project.machine? name = none ∨
          ∃ m, s.project.machine? name = some m ∧ m.start? = none)) ∨
      ∃ links, s.current.CallChain s.project links ∧ ¬ (links.map Prod.fst).Nodup) := by
  have hwf := hp.wellFormed
  have hrepeats : (∀ k, ¬ s.current.CallsEnd s.project k) ↔ _ := Frame.endless_iff_repeats hwf
  have hloop : ∀ name depth, s.enterSubmachines.1 = .error (.infiniteSubmachineLoop name depth) →
      ∀ k, ¬ s.current.CallsEnd s.project k := fun name depth herror k hends =>
    enterSubmachines_ne_loop hwf hends name depth herror
  refine ⟨fun links hlinks hnone => ?_, fun links name hlinks hsub => ⟨fun hm => ?_,
    fun m hm hstart => ?_⟩, ?_, ?_, fun name depth herror => ?_, ?_⟩
  · obtain ⟨hlength, stack, hframes, hcurrent, hentered⟩ :=
      enterSubmachines_of_callChain hwf hlinks (Frame.not_enters_iff.mpr (.inl hnone))
    rw [Frame.callee?_of_none hnone] at hentered
    exact ⟨hlength, stack, hframes, hcurrent, hentered⟩
  · obtain ⟨-, stack, -, -, hentered⟩ := enterSubmachines_of_callChain hwf hlinks
      (Frame.not_enters_iff.mpr (.inr ⟨name, hsub, .inl hm⟩))
    rw [hentered, Frame.callee?_of_unknown hsub hm]
    rfl
  · obtain ⟨-, stack, -, -, hentered⟩ := enterSubmachines_of_callChain hwf hlinks
      (Frame.not_enters_iff.mpr (.inr ⟨name, hsub, .inr ⟨m, hm, hstart⟩⟩))
    have hfails := Frame.start_eq_error_iff.mpr ⟨hstart, rfl⟩
    rw [(hwf.machine?_eq_some_iff.mp hm).2] at hfails
    rw [hentered, Frame.callee?_of_known hsub hm, hfails]
    rfl
  · rw [← hrepeats]
    constructor
    · rintro ⟨name, depth, herror⟩
      exact hloop name depth herror
    · intro hendless
      obtain ⟨-, name, -, -, -, herror⟩ := enterSubmachines_of_endless hendless
      exact ⟨name, _, herror⟩
  · rw [← hrepeats]
    exact Frame.endless_iff_exists_callChain
  · obtain ⟨links, name', callee, hlinks, hlength, herror'⟩ :=
      enterSubmachines_of_endless (hloop name depth herror)
    rw [herror'] at herror
    cases herror
    exact ⟨rfl, links, callee, hlinks, hlength⟩
  · by_cases hends : ∃ k, s.current.CallsEnd s.project k
    · obtain ⟨k, hends⟩ := hends
      obtain ⟨links, hlinks, hend⟩ := hends.exists_callChain
      rcases Frame.not_enters_iff.mp hend with hnone | ⟨name, hsub, hfails⟩
      · exact .inl ⟨links, hlinks, hnone⟩
      · exact .inr (.inl ⟨links, name, hlinks, hsub, hfails⟩)
    · exact .inr (.inr (hrepeats.mp (not_exists.mp hends)))

/-! ## Chains of three machines -/

/-- The machines `first` and `second` call the next one, and `third` calls back from one of its
states. Another state of it calls a machine that is missing. -/
def chainSample : Project × Identity :=
  [Project.Edit.addMachine "first",
    .editMachine "first" (.addState "start"),
    .editMachine "first" (.editState "start" (.setSubmachine (some "second"))),
    .addMachine "second",
    .editMachine "second" (.addState "start"),
    .editMachine "second" (.editState "start" (.setSubmachine (some "third"))),
    .addMachine "third",
    .editMachine "third" (.addState "start"),
    .editMachine "third" (.addState "again"),
    .editMachine "third" (.editState "again" (.setSubmachine (some "first"))),
    .editMachine "third" (.addState "lost"),
    .editMachine "third" (.editState "lost" (.setSubmachine (some "fourth")))].foldl
    (fun built edit => edit.apply built) (Project.new 0, 1)

/-- The sample with the start state of its last machine calling the first one. -/
def loopSample : Project × Identity :=
  (Project.Edit.editMachine "third" (.editState "start" (.setSubmachine (some "first")))).apply
    chainSample

/-- A simulation that has just entered a state. -/
def entered? (p : Project) (machine state : String) : Option Simulation := do
  let m ← p.machine? machine
  let h ← m.stateHandle? state
  return unsettled p (.ofText "" '_') ⟨m, h, ← m.stateAt? h⟩

/-- All three machines are entered from the last one, the missing machine is reported, and a loop of
the three is found at the fourth call. -/
theorem calls_of_samples : ∃ again lost looping,
    entered? chainSample.1 "third" "again" = some again ∧
    entered? chainSample.1 "third" "lost" = some lost ∧
    entered? loopSample.1 "third" "again" = some looping ∧
    (∃ stack : CallStack, stack.frames.length = 4 ∧ stack.current.state.name = "start" ∧
      again.enterSubmachines = (.ok (), { again with stack })) ∧
    lost.enterSubmachines.1 = .error (.submachineNotFound "fourth" "lost" "third") ∧
    ∃ name, looping.enterSubmachines.1 = .error (.infiniteSubmachineLoop name 4) := by
  have hchain : chainSample.1.Built chainSample.2 := (Project.Built.new 0).foldl_edit _
  have hloop : loopSample.1.Built loopSample.2 := hchain.edited _
  let start (p : Project) (machine : String) (h : (entered? p machine "start").isSome) : Frame :=
    ((entered? p machine "start").get h).current
  let again := (entered? chainSample.1 "third" "again").get rfl
  let lost := (entered? chainSample.1 "third" "lost").get rfl
  let looping := (entered? loopSample.1 "third" "again").get rfl
  refine ⟨again, lost, looping, rfl, rfl, rfl, ?_, ?_, ?_⟩
  · have hlinks : again.current.CallChain again.project
        [("first", start chainSample.1 "first" rfl), ("second", start chainSample.1 "second" rfl),
          ("third", start chainSample.1 "third" rfl)] :=
      .cons ⟨rfl, rfl, rfl⟩ (.cons ⟨rfl, rfl, rfl⟩ (.cons ⟨rfl, rfl, rfl⟩ (.nil _)))
    obtain ⟨-, stack, hframes, hcurrent, hentered⟩ :=
      (enter_follows_call_chain (s := again) hchain).1 _ hlinks rfl
    exact ⟨stack, by rw [hframes]; rfl, by rw [hcurrent]; rfl, hentered⟩
  · exact ((enter_follows_call_chain (s := lost) hchain).2.1 _ _ (.nil _) rfl).1 rfl
  · have hlinks : looping.current.CallChain looping.project
        [("first", start loopSample.1 "first" rfl), ("second", start loopSample.1 "second" rfl),
          ("third", start loopSample.1 "third" rfl), ("first", start loopSample.1 "first" rfl)] :=
      .cons ⟨rfl, rfl, rfl⟩ (.cons ⟨rfl, rfl, rfl⟩
        (.cons ⟨rfl, rfl, rfl⟩ (.cons ⟨rfl, rfl, rfl⟩ (.nil _))))
    obtain ⟨-, -, hreported, -, hdepth, -⟩ := enter_follows_call_chain (s := looping) hloop
    obtain ⟨name, depth, herror⟩ := hreported.mpr ⟨_, hlinks, by decide⟩
    obtain ⟨rfl, -⟩ := hdepth name depth herror
    exact ⟨name, herror⟩

end Simulation

end HierarchicalTuring
