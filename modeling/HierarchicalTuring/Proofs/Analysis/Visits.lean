import HierarchicalTuring.Proofs.Analysis.Search
import HierarchicalTuring.Proofs.Project.Built

/-! # The search visits each handle once

* `Search.Loop m popped visits search final` is the loop that pops until the stack is empty. It leads
  from `search` to `final`, takes the handles of `popped` off the stack, and visits those of `visits`,
  both in the order of the pops. A handle can be popped again, since it is marked only when it is
  visited.
* The loop stops, after `Search.remaining` pops at most (`exists_loop`), and ends where the bounded run
  does (`Loop.run_of_le`). No handle is visited that was visited before (`Loop.nodup_visits`), and what
  is visited in the end was visited by one of the pops (`Loop.visited`).
* `Machine.search_visits_once` puts this together for the search from the start state.
-/

set_option autoImplicit false

namespace HierarchicalTuring

namespace Search

variable {m : Machine} {search final : Search} {popped visits : List Handle} {h : Handle}
  {rest : List Handle}

/-! ## The loop -/

/-- Pops until the stack is empty. A handle that was visited before is passed over. -/
inductive Loop (m : Machine) : List Handle → List Handle → Search → Search → Prop
  | ends {search : Search} : search.stack = [] → Loop m [] [] search search
  | passes {search final : Search} {h : Handle} {rest popped visits : List Handle} :
      search.stack = h :: rest → h ∈ search.visited →
      Loop m popped visits (search.pop m) final → Loop m (h :: popped) visits search final
  | visits {search final : Search} {h : Handle} {rest popped visits : List Handle} :
      search.stack = h :: rest → h ∉ search.visited →
      Loop m popped visits (search.pop m) final → Loop m (h :: popped) (h :: visits) search final

theorem visited_pop_of_mem (hstack : search.stack = h :: rest) (hold : h ∈ search.visited) :
    (search.pop m).visited = search.visited := by
  simp only [pop, hstack, if_pos hold]

theorem visited_pop_of_notMem (hstack : search.stack = h :: rest) (hnew : h ∉ search.visited) :
    (search.pop m).visited = h :: search.visited := by
  simp only [pop, hstack, if_neg hnew]

/-- Every pop lowers the bound of those that are left, so the loop stops. -/
theorem exists_loop (m : Machine) (search : Search) : ∃ popped visits final,
    Loop m popped visits search final ∧ popped.length ≤ remaining m search := by
  induction hbound : remaining m search using Nat.strong_induction_on generalizing search with
  | _ bound ih =>
    cases hstack : search.stack with
    | nil => exact ⟨[], [], search, .ends hstack, Nat.zero_le _⟩
    | cons h rest =>
      have hpop : remaining m (search.pop m) + 1 ≤ remaining m search :=
        remaining_pop (by rw [hstack]; exact List.cons_ne_nil h rest)
      obtain ⟨popped, visits, final, hloop, hlength⟩ := ih _ (by omega) (search.pop m) rfl
      by_cases hold : h ∈ search.visited
      · refine ⟨h :: popped, visits, final, .passes hstack hold hloop, ?_⟩
        rw [List.length_cons]
        omega
      · refine ⟨h :: popped, h :: visits, final, .visits hstack hold hloop, ?_⟩
        rw [List.length_cons]
        omega

namespace Loop

/-- There is no other way through the loop. -/
theorem unique (hloop : Loop m popped visits search final) {popped' visits' : List Handle}
    {final' : Search} (hloop' : Loop m popped' visits' search final') :
    popped' = popped ∧ visits' = visits ∧ final' = final := by
  induction hloop generalizing popped' visits' with
  | ends hstack =>
    cases hloop' with
    | ends _ => exact ⟨rfl, rfl, rfl⟩
    | passes hstack' _ _ => cases hstack.symm.trans hstack'
    | visits hstack' _ _ => cases hstack.symm.trans hstack'
  | passes hstack hold _ ih =>
    cases hloop' with
    | ends hstack' => cases hstack.symm.trans hstack'
    | passes hstack' _ hrest' =>
      cases hstack.symm.trans hstack'
      obtain ⟨rfl, rfl, rfl⟩ := ih hrest'
      exact ⟨rfl, rfl, rfl⟩
    | visits hstack' hnew _ =>
      cases hstack.symm.trans hstack'
      exact absurd hold hnew
  | visits hstack hnew _ ih =>
    cases hloop' with
    | ends hstack' => cases hstack.symm.trans hstack'
    | passes hstack' hold _ =>
      cases hstack.symm.trans hstack'
      exact absurd hold hnew
    | visits hstack' _ hrest' =>
      cases hstack.symm.trans hstack'
      obtain ⟨rfl, rfl, rfl⟩ := ih hrest'
      exact ⟨rfl, rfl, rfl⟩

theorem stack_final (hloop : Loop m popped visits search final) : final.stack = [] := by
  induction hloop with
  | ends hstack => exact hstack
  | passes _ _ _ ih => exact ih
  | visits _ _ _ ih => exact ih

/-- The bounded run ends where the loop ends, if the bound is not smaller than the number of pops. -/
theorem run_of_le (hloop : Loop m popped visits search final) {count : Nat}
    (hcount : popped.length ≤ count) : search.run m count = final := by
  induction hloop generalizing count with
  | ends hstack => exact run_of_stack_eq_nil hstack count
  | passes _ _ _ ih =>
    obtain ⟨count, rfl⟩ := Nat.exists_eq_add_of_lt hcount
    exact ih (by omega)
  | visits _ _ _ ih =>
    obtain ⟨count, rfl⟩ := Nat.exists_eq_add_of_lt hcount
    exact ih (by omega)

/-- Visits add up to what is visited in the end. -/
theorem visited (hloop : Loop m popped visits search final) :
    final.visited = visits.reverse ++ search.visited := by
  induction hloop with
  | ends _ => rfl
  | passes hstack hold _ ih => rw [ih, visited_pop_of_mem hstack hold]
  | visits hstack hnew _ ih => rw [ih, visited_pop_of_notMem hstack hnew]; simp

/-- A handle that is visited was not visited before, and is not visited again. -/
theorem nodup_visits (hloop : Loop m popped visits search final) :
    visits.Nodup ∧ ∀ h ∈ visits, h ∉ search.visited := by
  induction hloop with
  | ends _ => exact ⟨List.nodup_nil, fun _ hmem => absurd hmem List.not_mem_nil⟩
  | passes hstack hold _ ih => exact visited_pop_of_mem (m := m) hstack hold ▸ ih
  | visits hstack hnew _ ih =>
    obtain ⟨hnodup, hlater⟩ := ih
    rw [visited_pop_of_notMem hstack hnew] at hlater
    refine ⟨List.nodup_cons.mpr ⟨fun hmem => hlater _ hmem List.mem_cons_self, hnodup⟩, ?_⟩
    refine List.forall_mem_cons.mpr ⟨hnew, fun h hmem hold => ?_⟩
    exact hlater h hmem (List.mem_cons_of_mem _ hold)

theorem visits_sublist (hloop : Loop m popped visits search final) : visits.Sublist popped := by
  induction hloop with
  | ends _ => exact List.Sublist.refl []
  | passes _ _ _ ih => exact ih.cons _
  | visits _ _ _ ih => exact ih.cons_cons _

end Loop

end Search

namespace Machine

variable {m : Machine} {start : Handle} {state : State}

/-- The search from the start state stops, whatever transitions the machine stores: it pops one entry
and one more for each of the transitions at most, and visits a handle once at most. -/
theorem search_visits_once (hstart : m.start? = some (start, state)) :
    ∃ popped visits final, Search.Loop m popped visits ⟨[], [start]⟩ final ∧
      (∀ popped' visits' final', Search.Loop m popped' visits' ⟨[], [start]⟩ final' →
        popped' = popped ∧ visits' = visits ∧ final' = final) ∧
      popped.length ≤ 1 + (m.states.live.flatMap fun s => s.transitions).length ∧
      final.stack = [] ∧
      visits.Nodup ∧ visits.Sublist popped ∧ (∀ h, h ∈ final.visited ↔ h ∈ visits) ∧
      m.unreachableStates? = some
        ((m.states.entries.filter fun entry => entry.1 ∉ final.visited).map fun entry =>
          entry.2.name) := by
  obtain ⟨popped, visits, final, hloop, hlength⟩ := Search.exists_loop m ⟨[], [start]⟩
  have hbound : popped.length ≤ 1 + m.transitionTotal := by
    rw [Search.remaining, Search.pending_nil, List.length_singleton] at hlength
    exact hlength
  have hvisited : m.visited start = final.visited :=
    congrArg Search.visited (hloop.run_of_le hbound)
  refine ⟨popped, visits, final, hloop, fun _ _ _ hloop' => hloop.unique hloop', hbound,
    hloop.stack_final, hloop.nodup_visits.1, hloop.visits_sublist, fun h => ?_, ?_⟩
  · rw [hloop.visited, List.append_nil, List.mem_reverse]
  · rw [← hvisited]
    simp only [unreachableStates?, hstart]
    rfl

end Machine

namespace Project

/-- In the machine `main` two transitions lead from `start` to `port` and a third one back to `start`.
Those of `port` lead to `start`, to a slot that was never used, and to a state of no machine here. -/
def whirlSample : Project × Identity :=
  [Edit.addMachine "main",
    .editMachine "main" (.addState "start"),
    .editMachine "main" (.addState "port"),
    .editMachine "main" (.addTransition "start" "port" "1" none .right),
    .editMachine "main" (.addTransition "start" "port" "2" none .left),
    .editMachine "main" (.addTransition "start" "start" "3" none .right),
    .editMachine "main" (.addTransition "port" "start" "1" none .left),
    .editMachine "main" (.editState "port" (.addTransition ⟨1, 9⟩ "2" none .stay)),
    .editMachine "main" (.editState "port" (.addTransition ⟨7, 0⟩ "3" none .stay))].foldl
    (fun built edit => edit.apply built) (Project.new 0, 1)

/-- The state `port` is on the stack twice and is visited the first time only. -/
theorem visits_of_whirlSample : ∃ m state final, whirlSample.1.machine? "main" = some m ∧
    m.start? = some (⟨1, 0⟩, state) ∧
    Search.Loop m [⟨1, 0⟩, ⟨1, 1⟩, ⟨7, 0⟩, ⟨1, 9⟩, ⟨1, 1⟩] [⟨1, 0⟩, ⟨1, 1⟩, ⟨7, 0⟩, ⟨1, 9⟩]
      ⟨[], [⟨1, 0⟩]⟩ final ∧
    5 ≤ 1 + (m.states.live.flatMap fun s => s.transitions).length ∧ final.stack = [] := by
  let m := (whirlSample.1.machine? "main").get rfl
  let found := m.start?.get rfl
  have hstart : m.start? = some (⟨1, 0⟩, found.2) := rfl
  let s₁ : Search := Search.pop m ⟨[], [⟨1, 0⟩]⟩
  let s₂ := s₁.pop m
  let s₃ := s₂.pop m
  let s₄ := s₃.pop m
  have h₁ : s₁.stack = [⟨1, 1⟩, ⟨1, 1⟩] := by decide +kernel
  have h₂ : s₂.stack = [⟨7, 0⟩, ⟨1, 9⟩, ⟨1, 1⟩] := by decide +kernel
  have h₃ : s₃.stack = [⟨1, 9⟩, ⟨1, 1⟩] := by decide +kernel
  have h₄ : s₄.stack = [⟨1, 1⟩] := by decide +kernel
  have h₅ : (s₄.pop m).stack = [] := by decide +kernel
  have hloop : Search.Loop m [⟨1, 0⟩, ⟨1, 1⟩, ⟨7, 0⟩, ⟨1, 9⟩, ⟨1, 1⟩]
      [⟨1, 0⟩, ⟨1, 1⟩, ⟨7, 0⟩, ⟨1, 9⟩] ⟨[], [⟨1, 0⟩]⟩ (s₄.pop m) :=
    .visits rfl List.not_mem_nil <| .visits h₁ (by decide +kernel) <|
      .visits h₂ (by decide +kernel) <| .visits h₃ (by decide +kernel) <|
        .passes h₄ (by decide +kernel) <| .ends h₅
  obtain ⟨popped, visits, final, -, honly, hlength, hstack, -⟩ := Machine.search_visits_once hstart
  obtain ⟨rfl, rfl, rfl⟩ := honly _ _ _ hloop
  exact ⟨m, found.2, _, rfl, hstart, hloop, hlength, hstack⟩

end Project

end HierarchicalTuring
