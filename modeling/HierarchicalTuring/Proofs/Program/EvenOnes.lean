import HierarchicalTuring.Proofs.Program.Reading
import Mathlib.Algebra.Group.Nat.Even

/-! # Even ones

The built-in program that accepts the binary texts with an even number of ones starts in a machine
with three states (`EvenOnes.table`). It writes nothing. One of its states stands for an even and one
for an odd number of ones read so far (`EvenOnes.side`), and the first empty cell is read in the
former only.

* `sweeps_side`: over zeros and ones the state goes along with their number.
* `runs_over_bits` goes to the end of the longest prefix of zeros and ones. What comes next decides
  (`runs_of_language`, `runs_of_not_language`).

Inputs are shorter than the 64-bit range of positions, as every text in memory is.
-/

set_option autoImplicit false

namespace HierarchicalTuring

namespace EvenOnes

def table : MachineDocument where
  states := .ofList [
    ("start", ⟨[⟨"start", "0", none, "R"⟩, ⟨"odd", "1", none, "R"⟩, ⟨"done", "␣", none, "S"⟩],
      false, none, default⟩),
    ("odd", ⟨[⟨"odd", "0", none, "R"⟩, ⟨"start", "1", none, "R"⟩], false, none, default⟩),
    ("done", ⟨[], true, none, default⟩)]
  submachines := none

set_option maxRecDepth 4000 in
theorem exists_document : ∃ document,
    readDocument ProgramDocument.ofTree evenOnesText = .ok document ∧
      decide (document.name = "Even ones" ∧ document.machine = "main" ∧
        document.StartsBy table) = true := by
  unfold evenOnesText
  apply exists_readDocument
  · apply toList_of_pieces
    repeat' apply toList_append_piece
    exact toList_first_piece
  · decide +kernel

/-! ## Rules -/

def isBit (c : Char) : Bool :=
  c = '0' ∨ c = '1'

/-- The texts of zeros and ones with an even number of ones. -/
def Language (text : String) : Prop :=
  (∀ c ∈ text.toList, c = '0' ∨ c = '1') ∧ Even (text.toList.count '1')

/-- The state in which the machine is after so many ones. -/
def side (ones : Nat) : String :=
  if Even ones then "start" else "odd"

theorem accepts_side (k : Nat) : table.accepts (side k) = false := by
  unfold side
  split <;> rfl

theorem rule?_side_zero (k : Nat) :
    table.rule? (side k) '0' = some ⟨none, .right, side k⟩ := by
  unfold side
  split <;> rfl

theorem rule?_side_one (k : Nat) :
    table.rule? (side k) '1' = some ⟨none, .right, side (k + 1)⟩ := by
  rcases Nat.even_or_odd k with hk | hk
  · have hnext : ¬ Even (k + 1) := by simpa [Nat.even_add_one] using hk
    rw [side, side, if_pos hk, if_neg hnext]
    rfl
  · have hnext : Even (k + 1) := by simpa [Nat.even_add_one] using hk
    rw [side, side, if_neg (by simpa using hk), if_pos hnext]
    rfl

theorem rule?_side_empty (k : Nat) : table.rule? (side k) defaultEmpty =
    if Even k then some ⟨none, .stay, "done"⟩ else none := by
  unfold side
  split <;> rfl

theorem rule?_side_of_not_isBit (k : Nat) {c : Char} (hc : isBit c = false)
    (hempty : c ≠ defaultEmpty) : table.rule? (side k) c = none := by
  have hstart : table.states.find? "start" = some ⟨[⟨"start", "0", none, "R"⟩,
      ⟨"odd", "1", none, "R"⟩, ⟨"done", "␣", none, "S"⟩], false, none, default⟩ := rfl
  have hodd : table.states.find? "odd" = some ⟨[⟨"odd", "0", none, "R"⟩,
      ⟨"start", "1", none, "R"⟩], false, none, default⟩ := rfl
  simp only [isBit, decide_eq_false_iff_not, not_or] at hc
  obtain ⟨hzero, hone⟩ := hc
  have hempty : c ≠ '␣' := hempty
  unfold side MachineDocument.rule?
  split
  · simp [hstart, hzero, hone, hempty]
  · simp [hodd, hzero, hone]

theorem sweeps_side {l : List Char} (h : ∀ c ∈ l, isBit c = true) (k : Nat) :
    table.Sweeps (side k) l (side (k + l.count '1')) := by
  induction l generalizing k with
  | nil => exact .nil _
  | cons c l ih =>
    have hrest : ∀ c ∈ l, isBit c = true := fun c hc => h c (List.mem_cons_of_mem _ hc)
    have hbit : c = '0' ∨ c = '1' := by simpa [isBit] using h c List.mem_cons_self
    rcases hbit with rfl | rfl
    · rw [List.count_cons_of_ne (by decide)]
      exact .cons (rule?_side_zero k) (accepts_side k) (ih hrest k)
    · rw [List.count_cons_self, ← Nat.add_assoc, Nat.add_right_comm]
      exact .cons (rule?_side_one k) (accepts_side (k + 1)) (ih hrest (k + 1))

/-! ## Runs -/

variable {text : String}

theorem start_of_table (tape : Tape) :
    table.enter startStateName (.start tape) 0 = ⟨side 0, ⟨tape, 0⟩, 0, .running⟩ :=
  MachineDocument.enter_of_not_accepts rfl _ _

/-- Over the longest prefix of zeros and ones. -/
theorem runs_over_bits (hfits : text.length ≤ maxPosition) :
    table.Runs (text.toList.takeWhile isBit).length
      ⟨side 0, ⟨.ofText text defaultEmpty, 0⟩, 0, .running⟩
      ⟨side ((text.toList.takeWhile isBit).count '1'),
        ⟨.ofText text defaultEmpty, (text.toList.takeWhile isBit).length⟩,
        (text.toList.takeWhile isBit).length, .running⟩ := by
  have hbits : ∀ c ∈ text.toList.takeWhile isBit, isBit c = true := fun c hc =>
    List.mem_takeWhile_imp hc
  have hholds := Tape.holds_ofText text defaultEmpty
  conv at hholds => arg 3; rw [← List.takeWhile_append_dropWhile (p := isBit) (l := text.toList)]
  have hlength := (List.takeWhile_prefix isBit (l := text.toList)).length_le
  rw [String.length_toList] at hlength
  simpa using (sweeps_side hbits 0).runs hholds.left (by omega) 0

theorem runs_of_language (h : Language text) (hfits : text.length ≤ maxPosition) :
    table.Runs (text.length + 1) ⟨side 0, ⟨.ofText text defaultEmpty, 0⟩, 0, .running⟩
      ⟨"done", ⟨.ofText text defaultEmpty, text.length⟩, text.length + 1, .accepted⟩ := by
  obtain ⟨hbits, heven⟩ := h
  have hall : text.toList.takeWhile isBit = text.toList :=
    List.takeWhile_eq_self_iff.mpr fun c hc => by simpa [isBit] using hbits c hc
  have s1 := runs_over_bits hfits
  rw [hall, String.length_toList] at s1
  have s2 : table.Runs 1
      ⟨side (text.toList.count '1'), ⟨.ofText text defaultEmpty, text.length⟩, text.length, .running⟩
      ⟨"done", ⟨.ofText text defaultEmpty, text.length⟩, text.length + 1, .accepted⟩ := by
    have hrule := rule?_side_empty (text.toList.count '1')
    rw [if_pos heven] at hrule
    have hread : (Tape.ofText text defaultEmpty).read text.length = defaultEmpty := by
      rw [Tape.read_ofText, Tape.spread_of_length_le String.length_toList.le]
    have h := MachineDocument.runs_one_of_rule hrule hread (Head.move_eq rfl hfits) text.length
    rwa [MachineDocument.enter_of_accepts rfl] at h
  exact s1.trans s2

/-- The next character is the empty one after an odd number of ones, or none that any rule reads. -/
theorem rule?_behind_bits (h : ¬ Language text) (hempty : defaultEmpty ∉ text.toList) :
    table.rule? (side ((text.toList.takeWhile isBit).count '1'))
      ((Tape.ofText text defaultEmpty).read (text.toList.takeWhile isBit).length) = none := by
  have hsplit := List.takeWhile_append_dropWhile (p := isBit) (l := text.toList)
  rw [Tape.read_ofText]
  cases hrest : text.toList.dropWhile isBit with
  | nil =>
    rw [hrest, List.append_nil] at hsplit
    have hbits : ∀ c ∈ text.toList, c = '0' ∨ c = '1' := fun c hc => by
      simpa [isBit] using List.takeWhile_eq_self_iff.mp hsplit c hc
    have hodd : ¬ Even (text.toList.count '1') := fun heven => h ⟨hbits, heven⟩
    rw [hsplit, Tape.spread_of_length_le (Nat.le_refl _), rule?_side_empty, if_neg hodd]
  | cons c rest =>
    have hread := Tape.spread_append_cons (text.toList.takeWhile isBit) c rest defaultEmpty
    have hbit := List.head?_dropWhile_not isBit text.toList
    have hmem : c ∈ text.toList :=
      (List.dropWhile_sublist isBit).mem (hrest ▸ List.mem_cons_self)
    rw [← hrest, hsplit] at hread
    rw [hrest] at hbit
    rw [hread, rule?_side_of_not_isBit _ (by simpa using hbit) fun heq => hempty (heq ▸ hmem)]

theorem runs_of_not_language (h : ¬ Language text) (hempty : defaultEmpty ∉ text.toList)
    (hfits : text.length ≤ maxPosition) :
    table.Runs ((text.toList.takeWhile isBit).length + 1)
      ⟨side 0, ⟨.ofText text defaultEmpty, 0⟩, 0, .running⟩
      ⟨side ((text.toList.takeWhile isBit).count '1'),
        ⟨.ofText text defaultEmpty, (text.toList.takeWhile isBit).length⟩,
        (text.toList.takeWhile isBit).length, .rejected⟩ :=
  (runs_over_bits hfits).trans
    (MachineDocument.runs_one_of_no_rule (rule?_behind_bits h hempty) rfl _)

theorem contents_ofText (hempty : defaultEmpty ∉ text.toList) :
    (Tape.ofText text defaultEmpty).contents = text :=
  Tape.contents_eq_iff.mpr
    ⟨fun hlast => hempty (List.mem_of_getLast? hlast), (Tape.view_ofText text defaultEmpty).symm⟩

end EvenOnes

/-- Even ones, as it is loaded from its text: every run ends, with the input still on the tape. It
accepts exactly the language, and otherwise ends behind the zeros and ones in front. -/
theorem Program.evenOnes_decides (next : Identity) : ∃ program next',
    Program.read next evenOnesText = .ok (program, next') ∧
      program.name = "Even ones" ∧ program.machine = "main" ∧
      ∀ text, defaultEmpty ∉ text.toList → text.length ≤ maxPosition → ∃ s t status,
        Simulation.start program.project "main" (.ofText text defaultEmpty) = .ok s ∧
        Simulation.RunsTo s status t ∧
        (EvenOnes.Language text ↔ status = .accepted ∧ t.current.state.name = "done" ∧
          t.stepCount = text.length + 1) ∧
        (¬ EvenOnes.Language text → status = .rejected ∧
          t.stepCount = (text.toList.takeWhile EvenOnes.isBit).length) ∧
        t.head.tape.contents = text := by
  obtain ⟨program, next', machine, hread, hname, hmachine, hfound, hfollows⟩ :=
    Program.exists_read EvenOnes.exists_document next
  obtain ⟨first, hfirst⟩ : ∃ s, EvenOnes.table.states.find? startStateName = some s := ⟨_, rfl⟩
  refine ⟨program, next', hread, hname, hmachine, fun text hempty hfits => ?_⟩
  have hcontents := EvenOnes.contents_ofText hempty
  by_cases hlanguage : EvenOnes.Language text
  case pos =>
    obtain ⟨s, t, hs, ht, hend⟩ := hfollows.runsTo hfound hfirst
      (EvenOnes.start_of_table _ ▸ EvenOnes.runs_of_language hlanguage hfits) (by simp)
    refine ⟨s, t, .accepted, hs, ht, ?_, fun hnot => absurd hlanguage hnot, ?_⟩
    · exact iff_of_true hlanguage ⟨rfl, hend.state, hend.stepCount⟩
    · rw [hend.head, hcontents]
  case neg =>
    obtain ⟨s, t, hs, ht, hend⟩ := hfollows.runsTo hfound hfirst
      (EvenOnes.start_of_table _ ▸ EvenOnes.runs_of_not_language hlanguage hempty hfits) (by simp)
    refine ⟨s, t, .rejected, hs, ht, ?_, fun _ => ⟨rfl, hend.stepCount⟩, ?_⟩
    · exact iff_of_false hlanguage (by simp)
    · rw [hend.head, hcontents]

/-- A text with two ones, and one that begins with two bits. -/
theorem Program.evenOnes_of_samples : ∃ program next' s t u v,
    Program.read 0 evenOnesText = .ok (program, next') ∧
      Simulation.start program.project "main" (.ofText "1001" defaultEmpty) = .ok s ∧
      Simulation.RunsTo s .accepted t ∧ t.stepCount = 5 ∧ t.head.tape.contents = "1001" ∧
      Simulation.start program.project "main" (.ofText "11a0" defaultEmpty) = .ok u ∧
      Simulation.RunsTo u .rejected v ∧ v.stepCount = 2 := by
  obtain ⟨program, next', hread, -, -, hdecides⟩ := Program.evenOnes_decides 0
  have heven : EvenOnes.Language "1001" := ⟨by simp, by decide⟩
  have hother : ¬ EvenOnes.Language "11a0" := fun h => absurd h.1 (by simp)
  obtain ⟨s, t, status, hs, ht, haccepts, -, hcontents⟩ :=
    hdecides "1001" (by decide) (by decide)
  obtain ⟨u, v, status', hu, hv, -, hrejects, -⟩ :=
    hdecides "11a0" (by decide) (by decide)
  obtain ⟨rfl, -, hcount⟩ := haccepts.mp heven
  obtain ⟨rfl, hcount'⟩ := hrejects hother
  exact ⟨program, next', s, t, u, v, hread, hs, ht, hcount, hcontents, hu, hv,
    hcount'.trans (by decide)⟩

end HierarchicalTuring
