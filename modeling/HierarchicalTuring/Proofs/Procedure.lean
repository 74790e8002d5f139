import HierarchicalTuring.Error

/-! # Procedures that change things in place

* `Procedure σ α` changes a value of `σ` step by step and may be refused on the way. What was changed
  before stays changed, so a refusal undoes nothing by itself. `Procedure.exec` is what comes out,
  with what is left.
* `Procedure.focus` runs a procedure on a part, and puts back what it leaves.
* `outcome s result` is what a function comes to that leaves its argument alone when it refuses.
* `Procedure.Refuses proc s reason`: the procedure is refused on `s` exactly with the errors of which
  `reason` holds, and then leaves `s` as it was.
-/

set_option autoImplicit false

namespace HierarchicalTuring

/-- A series of changes in place that may be refused. -/
abbrev Procedure (σ α : Type) := ExceptT ModelError (StateM σ) α

namespace Procedure

variable {σ τ α β : Type}

/-- The result of a procedure, and what it leaves. -/
def exec (proc : Procedure σ α) (s : σ) : Except ModelError α × σ :=
  (ExceptT.run proc).run s

/-- A procedure on a part of what is changed. What it leaves is put back, also when it is refused. -/
def focus (part : σ → τ) (put : σ → τ → σ) (proc : Procedure τ α) : Procedure σ α :=
  ExceptT.mk fun s =>
    let (result, t) := proc.exec (part s)
    (result, put s t)

/-! ## Runs -/

@[simp] theorem exec_pure (a : α) (s : σ) : (pure a : Procedure σ α).exec s = (.ok a, s) := rfl

@[simp] theorem exec_throw (e : ModelError) (s : σ) :
    (throw e : Procedure σ α).exec s = (.error e, s) := rfl

@[simp] theorem exec_get (s : σ) : (get : Procedure σ σ).exec s = (.ok s, s) := rfl

@[simp] theorem exec_modify (change : σ → σ) (s : σ) :
    (modify change : Procedure σ Unit).exec s = (.ok (), change s) := rfl

@[simp] theorem exec_bind (proc : Procedure σ α) (rest : α → Procedure σ β) (s : σ) :
    (proc >>= rest).exec s =
      match proc.exec s with
      | (.ok a, t) => (rest a).exec t
      | (.error e, t) => (.error e, t) := by
  simp only [exec, ExceptT.run_bind, StateT.run_bind]
  rcases (ExceptT.run proc).run s with ⟨_ | _, t⟩ <;> rfl

@[simp] theorem exec_focus (part : σ → τ) (put : σ → τ → σ) (proc : Procedure τ α) (s : σ) :
    (proc.focus part put).exec s = ((proc.exec (part s)).1, put s (proc.exec (part s)).2) := rfl

/-! ## Outcomes -/

/-- The result of a function, and what is left: a refusal leaves what there was. -/
def outcome (s : σ) : Except ModelError (α × σ) → Except ModelError α × σ
  | .ok (a, t) => (.ok a, t)
  | .error e => (.error e, s)

/-- An outcome on a part is one on the whole, where putting a part back changes nothing. -/
theorem exec_focus_of_outcome {part : σ → τ} {put : σ → τ → σ} {proc : Procedure τ α} {s : σ}
    {result : Except ModelError (α × τ)} (h : proc.exec (part s) = outcome (part s) result)
    (hput : put s (part s) = s) :
    (proc.focus part put).exec s = outcome s (result.map fun left => (left.1, put s left.2)) := by
  rw [exec_focus, h]
  cases result with
  | error e => exact congrArg (Prod.mk _) hput
  | ok left => rfl

/-! ## Refusals -/

/-- A refusal leaves everything as it was, and has one of the reasons that are said. -/
structure Refuses (proc : Procedure σ α) (s : σ) (reason : ModelError → Prop) : Prop where
  unchanged : ∀ e, (proc.exec s).1 = .error e → (proc.exec s).2 = s
  reason : ∀ e, (proc.exec s).1 = .error e ↔ reason e

variable {proc : Procedure σ α} {s : σ} {reason : ModelError → Prop}

theorem refuses_of_exec {result : Except ModelError α} {left : σ}
    (h : proc.exec s = (result, left)) (hunchanged : ∀ e, result = .error e → left = s)
    (hreason : ∀ e, result = .error e ↔ reason e) : proc.Refuses s reason where
  unchanged e he := by
    rw [h] at he ⊢
    exact hunchanged e he
  reason e := by
    rw [h]
    exact hreason e

theorem refuses_of_outcome {result : Except ModelError (α × σ)}
    (h : proc.exec s = outcome s result) (hreason : ∀ e, result = .error e ↔ reason e) :
    proc.Refuses s reason := by
  cases result with
  | error e =>
    refine refuses_of_exec h (fun _ _ => rfl) fun e' => ?_
    rw [← hreason]
    simp
  | ok left =>
    refine refuses_of_exec h (fun _ he => nomatch he) fun e => ?_
    rw [← hreason]
    simp

end Procedure

end HierarchicalTuring
