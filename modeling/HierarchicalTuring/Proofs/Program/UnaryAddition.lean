import HierarchicalTuring.Proofs.Program.Reading

/-! # Unary addition

The built-in program for unary addition starts in a machine with four states (`UnaryAddition.table`).
It runs over the first number, turns the plus sign into a one, runs over the second number to the
first empty cell, goes back by one and erases the one that is too many.

* `runs_over_plus` is the part that both kinds of inputs share: over ones, a plus sign and ones.
* `adds` follows the run on two numbers phase by phase, `rejects` is about any other input.

Positions end with the 64-bit range, and a head at the end of it stays there. Every text in memory is
shorter, and so are the inputs here.
-/

set_option autoImplicit false

namespace HierarchicalTuring

namespace UnaryAddition

def table : MachineDocument where
  states := .ofList [
    ("start", ⟨[⟨"start", "1", none, "R"⟩, ⟨"seek", "+", some "1", "R"⟩], false, none, default⟩),
    ("seek", ⟨[⟨"seek", "1", none, "R"⟩, ⟨"erase", "␣", none, "L"⟩], false, none, default⟩),
    ("erase", ⟨[⟨"done", "1", some "␣", "S"⟩], false, none, default⟩),
    ("done", ⟨[], true, none, default⟩)]
  submachines := none

set_option maxRecDepth 4000 in
theorem exists_document : ∃ document,
    readDocument ProgramDocument.ofTree unaryAdditionText = .ok document ∧
      decide (document.name = "Unary addition" ∧ document.machine = "main" ∧
        document.StartsBy table) = true := by
  unfold unaryAdditionText
  apply exists_readDocument
  · apply toList_of_pieces
    repeat' apply toList_append_piece
    exact toList_first_piece
  · decide +kernel

/-! ## Phases -/

def ones (n : Nat) : List Char :=
  List.replicate n '1'

@[simp] theorem length_ones (n : Nat) : (ones n).length = n :=
  List.length_replicate

theorem start_of_table (tape : Tape) :
    table.enter startStateName (.start tape) 0 = ⟨"start", ⟨tape, 0⟩, 0, .running⟩ :=
  MachineDocument.enter_of_not_accepts rfl _ _

theorem sweeps_start (n : Nat) : table.Sweeps "start" (ones n) "start" :=
  .replicate rfl rfl n

theorem sweeps_seek (n : Nat) : table.Sweeps "seek" (ones n) "seek" :=
  .replicate rfl rfl n

/-- Over the first number, the plus sign and the second number. What stands behind is left. -/
theorem runs_over_plus {tape : Tape} {m n : Nat} {rest : List Char}
    (hholds : tape.Holds 0 (ones m ++ '+' :: (ones n ++ rest))) (hfits : m + n < maxPosition) :
    table.Runs (m + n + 1) ⟨"start", ⟨tape, 0⟩, 0, .running⟩
        ⟨"seek", ⟨tape.write m '1', m + n + 1⟩, m + n + 1, .running⟩ ∧
      (tape.write m '1').Holds (m + n + 1) rest := by
  have hplus : tape.Holds m ('+' :: (ones n ++ rest)) := by simpa using hholds.right
  have hsecond : (tape.write m '1').Holds (m + 1) (ones n ++ rest) :=
    hplus.tail.write_of_lt (Nat.lt_succ_self m)
  have s1 : table.Runs m ⟨"start", ⟨tape, 0⟩, 0, .running⟩ ⟨"start", ⟨tape, m⟩, m, .running⟩ := by
    simpa using (sweeps_start m).runs hholds.left (by simp; omega) 0
  have s2 : table.Runs 1 ⟨"start", ⟨tape, m⟩, m, .running⟩
      ⟨"seek", ⟨tape.write m '1', m + 1⟩, m + 1, .running⟩ := by
    have hrule : table.rule? "start" '+' = some ⟨some '1', .right, "seek"⟩ := rfl
    have hact : (Head.write ⟨tape, m⟩ '1').move .right = ⟨tape.write m '1', m + 1⟩ :=
      Head.move_eq rfl (by omega)
    have h := MachineDocument.runs_one_of_rule hrule hplus.head hact m
    rwa [MachineDocument.enter_of_not_accepts rfl] at h
  have s3 : table.Runs n ⟨"seek", ⟨tape.write m '1', m + 1⟩, m + 1, .running⟩
      ⟨"seek", ⟨tape.write m '1', m + n + 1⟩, m + n + 1, .running⟩ := by
    have h := (sweeps_seek n).runs hsecond.left (by simp; omega) (m + 1)
    rwa [length_ones, Nat.add_right_comm m 1 n] at h
  have h := (s1.trans s2).trans s3
  rw [Nat.add_right_comm m 1 n] at h
  have hrest := hsecond.right
  rw [length_ones, Nat.add_right_comm m 1 n] at hrest
  exact ⟨h, hrest⟩

/-! ## Sums -/

def sumText (m n : Nat) : String :=
  String.ofList (ones m ++ '+' :: ones n)

/-- The tape with the plus sign written over. -/
def joined (m n : Nat) : Tape :=
  (Tape.ofText (sumText m n) defaultEmpty).write m '1'

/-- The tape in the end, the one too many erased. -/
def erased (m n : Nat) : Tape :=
  (joined m n).write (m + n) defaultEmpty

theorem holds_sumText (m n : Nat) :
    (Tape.ofText (sumText m n) defaultEmpty).Holds 0 (ones m ++ '+' :: (ones n ++ [])) := by
  have h := Tape.holds_ofText (sumText m n) defaultEmpty
  rw [List.append_nil]
  rwa [sumText, String.toList_ofList] at h

theorem read_joined (m n i : Nat) :
    (joined m n).read i = if i ≤ m + n then '1' else defaultEmpty := by
  rw [joined, Tape.read_write, Tape.read_ofText, sumText, String.toList_ofList, Tape.spread,
    List.getD_eq_getElem?_getD]
  rcases Nat.lt_trichotomy i m with hlt | rfl | hgt
  · rw [List.getElem?_append_left (by simpa using hlt)]
    simp [ones, hlt, Nat.ne_of_lt hlt, show i ≤ m + n by omega]
  · simp
  · obtain ⟨k, rfl⟩ : ∃ k, i = m + (k + 1) := ⟨i - m - 1, by omega⟩
    rw [List.getElem?_append_right (by simp), length_ones, Nat.add_sub_cancel_left]
    by_cases hk : k < n
    · simp [ones, show k + 1 ≤ n by omega]
    · simp [ones, show ¬ k + 1 ≤ n by omega]

theorem runs_sum {m n : Nat} (hfits : m + n < maxPosition) :
    table.Runs (m + n + 3) ⟨"start", ⟨.ofText (sumText m n) defaultEmpty, 0⟩, 0, .running⟩
      ⟨"done", ⟨erased m n, m + n⟩, m + n + 3, .accepted⟩ := by
  obtain ⟨s1, -⟩ := runs_over_plus (holds_sumText m n) hfits
  have s2 : table.Runs 1 ⟨"seek", ⟨joined m n, m + n + 1⟩, m + n + 1, .running⟩
      ⟨"erase", ⟨joined m n, m + n⟩, m + n + 2, .running⟩ := by
    have hrule : table.rule? "seek" defaultEmpty = some ⟨none, .left, "erase"⟩ := rfl
    have hread : (joined m n).read (m + n + 1) = defaultEmpty := by simp [read_joined]
    have hleft : ((m + n + 1 : Nat) : Int) + Direction.left.delta = (m + n : Nat) := by
      simp [Direction.delta]
    have h := MachineDocument.runs_one_of_rule hrule hread (Head.move_eq hleft (by omega)) (m + n + 1)
    rwa [MachineDocument.enter_of_not_accepts rfl] at h
  have s3 : table.Runs 1 ⟨"erase", ⟨joined m n, m + n⟩, m + n + 2, .running⟩
      ⟨"done", ⟨erased m n, m + n⟩, m + n + 3, .accepted⟩ := by
    have hrule : table.rule? "erase" '1' = some ⟨some defaultEmpty, .stay, "done"⟩ := rfl
    have hread : (joined m n).read (m + n) = '1' := by simp [read_joined]
    have hact : (Head.write ⟨joined m n, m + n⟩ defaultEmpty).move .stay = ⟨erased m n, m + n⟩ :=
      Head.move_eq rfl (by omega)
    have h := MachineDocument.runs_one_of_rule hrule hread hact (m + n + 2)
    rwa [MachineDocument.enter_of_accepts rfl] at h
  exact (s1.trans s2).trans s3

theorem contents_erased (m n : Nat) : (erased m n).contents = String.ofList (ones (m + n)) := by
  have hempty : (erased m n).empty = defaultEmpty := by
    simp [erased, joined, Tape.ofText]
  rw [Tape.contents_eq_iff, hempty, String.toList_ofList]
  constructor
  · intro hlast
    have hmem := List.mem_of_getLast? hlast
    simp [ones, defaultEmpty] at hmem
  · funext i
    rw [Tape.view, erased, Tape.read_write, read_joined, Tape.spread, List.getD_eq_getElem?_getD]
    rcases Nat.lt_trichotomy i (m + n) with hlt | rfl | hgt
    · simp [ones, hlt, Nat.ne_of_lt hlt, hlt.le]
    · simp [ones]
    · simp [ones, show ¬ i < m + n by omega, show i ≠ m + n by omega, show ¬ i ≤ m + n by omega]

/-! ## Inputs that are no sum -/

theorem ones_or_plus {l : List Char} (h : ∀ c ∈ l, c = '1' ∨ c = '+') :
    ∃ n, l = ones n ∨ ∃ rest, l = ones n ++ '+' :: rest := by
  induction l with
  | nil => exact ⟨0, .inl rfl⟩
  | cons c l ih =>
    rcases h c List.mem_cons_self with rfl | rfl
    · obtain ⟨n, rfl | ⟨rest, rfl⟩⟩ := ih fun c hc => h c (List.mem_cons_of_mem _ hc)
      · exact ⟨n + 1, .inl rfl⟩
      · exact ⟨n + 1, .inr ⟨rest, rfl⟩⟩
    · exact ⟨0, .inr ⟨l, rfl⟩⟩

theorem count_ones (n : Nat) : (ones n).count '+' = 0 := by
  simp [ones, List.count_replicate]

/-- Without a plus sign the run ends at the first empty cell, and with more than one at the second
plus sign. -/
theorem exists_rejected {text : String} (h : ∀ c ∈ text.toList, c = '1' ∨ c = '+')
    (hcount : text.toList.count '+' ≠ 1) (hfits : text.length ≤ maxPosition) :
    ∃ n e, table.Runs n ⟨"start", ⟨.ofText text defaultEmpty, 0⟩, 0, .running⟩ e ∧
      e.status = .rejected := by
  have hholds := Tape.holds_ofText text defaultEmpty
  rw [← String.length_toList] at hfits
  obtain ⟨m, hones | ⟨rest, hplus⟩⟩ := ones_or_plus h
  · rw [hones] at hholds hfits
    have s1 := (sweeps_start m).runs hholds (by omega) 0
    have hread : (Tape.ofText text defaultEmpty).read (0 + (ones m).length) = defaultEmpty := by
      rw [Tape.read_ofText, hones]
      exact Tape.spread_of_length_le (by omega)
    have hrule : table.rule? "start" defaultEmpty = none := rfl
    exact ⟨_, _, s1.trans (MachineDocument.runs_one_of_no_rule hrule hread _), rfl⟩
  have hrest : ∀ c ∈ rest, c = '1' ∨ c = '+' := fun c hc => h c (by simp [hplus, hc])
  obtain ⟨n, rfl | ⟨rest', rfl⟩⟩ := ones_or_plus hrest
  · rw [hplus, List.count_append, List.count_cons_self, count_ones, count_ones] at hcount
    exact absurd rfl hcount
  · rw [hplus] at hholds hfits
    simp only [List.length_append, List.length_cons, length_ones] at hfits
    obtain ⟨s1, hsecond⟩ := runs_over_plus hholds (by omega)
    have hrule : table.rule? "seek" '+' = none := rfl
    exact ⟨_, _, s1.trans (MachineDocument.runs_one_of_no_rule hrule hsecond.head _), rfl⟩

end UnaryAddition

/-- Unary addition, as it is loaded from its text: the run on two numbers adds them, and the run on an
input of ones and plus signs that is no sum rejects it. Inputs are those whose characters have
positions. -/
theorem Program.unaryAddition_adds (next : Identity) : ∃ program next',
    Program.read next unaryAdditionText = .ok (program, next') ∧
      program.name = "Unary addition" ∧ program.machine = "main" ∧
      (∀ m n, m + n < maxPosition → ∃ s t,
        Simulation.start program.project "main"
          (.ofText (UnaryAddition.sumText m n) defaultEmpty) = .ok s ∧
        Simulation.RunsTo s .accepted t ∧ t.current.state.name = "done" ∧
        t.stepCount = m + n + 3 ∧
        t.head.tape.contents = String.ofList (UnaryAddition.ones (m + n)) ∧
        t.head.position = m + n) ∧
      ∀ text, (∀ c ∈ text.toList, c = '1' ∨ c = '+') → text.toList.count '+' ≠ 1 →
        text.length ≤ maxPosition → ∃ s t,
          Simulation.start program.project "main" (.ofText text defaultEmpty) = .ok s ∧
          Simulation.RunsTo s .rejected t := by
  obtain ⟨program, next', machine, hread, hname, hmachine, hfound, hfollows⟩ :=
    Program.exists_read UnaryAddition.exists_document next
  obtain ⟨first, hfirst⟩ : ∃ s, UnaryAddition.table.states.find? startStateName = some s :=
    ⟨_, rfl⟩
  refine ⟨program, next', hread, hname, hmachine, fun m n hfits => ?sums, fun text h hcount hfits =>
    ?others⟩
  case sums =>
    obtain ⟨s, t, hs, ht, hend⟩ := hfollows.runsTo hfound hfirst
      (UnaryAddition.start_of_table _ ▸ UnaryAddition.runs_sum hfits) (by simp)
    have hhead : t.head = ⟨UnaryAddition.erased m n, m + n⟩ := hend.head
    refine ⟨s, t, hs, ht, hend.state, hend.stepCount, ?_, ?_⟩
    · simp only [hhead, UnaryAddition.contents_erased]
    · rw [hhead]
  case others =>
    obtain ⟨n, e, hruns, he⟩ := UnaryAddition.exists_rejected h hcount hfits
    obtain ⟨s, t, hs, ht, -⟩ := hfollows.runsTo hfound hfirst
      (UnaryAddition.start_of_table _ ▸ hruns) (by simp [he])
    exact ⟨s, t, hs, he ▸ ht⟩

/-- Two and three make five, and there is no sum of three numbers. -/
theorem Program.unaryAddition_of_samples : ∃ program next' s t u v,
    Program.read 0 unaryAdditionText = .ok (program, next') ∧
      Simulation.start program.project "main" (.ofText "11+111" defaultEmpty) = .ok s ∧
      Simulation.RunsTo s .accepted t ∧ t.stepCount = 8 ∧ t.head.tape.contents = "11111" ∧
      Simulation.start program.project "main" (.ofText "1+1+1" defaultEmpty) = .ok u ∧
      Simulation.RunsTo u .rejected v := by
  obtain ⟨program, next', hread, -, -, hsums, hothers⟩ := Program.unaryAddition_adds 0
  obtain ⟨s, t, hs, ht, -, hcount, hcontents, -⟩ := hsums 2 3 (by decide)
  obtain ⟨u, v, hu, hv⟩ := hothers "1+1+1" (by simp) (by simp) (by decide)
  exact ⟨program, next', s, t, u, v, hread, hs, ht, hcount, hcontents, hu, hv⟩

end HierarchicalTuring
