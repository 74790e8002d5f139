import HierarchicalTuring.Proofs.Analysis.Prediction
import HierarchicalTuring.Proofs.Text.ByteOrder
import Mathlib.Data.List.Rotate
import Mathlib.Logic.Relation

/-! # Loops are found once

* `Project.Walk p chain m result`: following calls from the last machine of a chain, without a bound
  on their number, comes to a machine that was there before, or to one that calls none. Every walk
  comes to an end (`walk_loopFrom?`), and to one only (`Walk.unique`).
* A walk that begins inside a loop finds this loop (`IsLoop.walk`), and a loop may be begun at any of
  its machines (`IsLoop.of_isRotated`). So two loops with a machine in common are the same, up to
  where they begin (`IsLoop.isRotated_of_mem`).
* `rotateToLeast` gives the one beginning that is reported.
* `loops_reported_once`: an analysis reports the loops, each of them once.
-/

set_option autoImplicit false

namespace HierarchicalTuring

/-! ## The least name -/

theorem least?_cons_cons (name second : String) (rest : List String) :
    least? (name :: second :: rest) = least? ((if second < name then second else name) :: rest) :=
  rfl

theorem exists_least (name : String) (rest : List String) : ∃ least,
    least? (name :: rest) = some least ∧ least ∈ name :: rest ∧
      ∀ other ∈ name :: rest, least ≤ other := by
  induction rest generalizing name with
  | nil =>
    refine ⟨name, rfl, List.mem_singleton_self name, fun other hother => ?_⟩
    exact List.mem_singleton.mp hother ▸ String.le_refl name
  | cons second rest ih =>
    obtain ⟨least, hleast, hmem, hle⟩ := ih (if second < name then second else name)
    obtain ⟨hfirst, hrest⟩ := List.forall_mem_cons.mp hle
    rw [least?_cons_cons]
    by_cases hlt : second < name
    · rw [if_pos hlt] at hmem hfirst
      exact ⟨least, hleast, List.mem_cons_of_mem name hmem, List.forall_mem_cons.mpr
        ⟨String.le_trans hfirst hlt.le, List.forall_mem_cons.mpr ⟨hfirst, hrest⟩⟩⟩
    · rw [if_neg hlt] at hmem hfirst
      refine ⟨least, hleast, ?_, List.forall_mem_cons.mpr ⟨hfirst, List.forall_mem_cons.mpr
        ⟨String.le_trans hfirst (String.not_lt.mp hlt), hrest⟩⟩⟩
      rcases List.mem_cons.mp hmem with rfl | hmem
      · exact List.mem_cons_self
      · exact List.mem_cons_of_mem _ (List.mem_cons_of_mem _ hmem)

theorem isRotated_rotateToLeast (names : List String) : rotateToLeast names ~r names := by
  unfold rotateToLeast
  cases least? names with
  | none => exact List.IsRotated.refl names
  | some least =>
    have hrotated : (names.dropWhile (fun name => name ≠ least) ++
        names.takeWhile fun name => name ≠ least) ~r _ := List.isRotated_append
    rwa [List.takeWhile_append_dropWhile] at hrotated

theorem head_rotateToLeast_le {names : List String} {first : String}
    (hfirst : (rotateToLeast names).head? = some first) : ∀ other ∈ names, first ≤ other := by
  cases names with
  | nil => exact fun other hother => absurd hother List.not_mem_nil
  | cons name rest =>
    obtain ⟨least, hleast, hmem, hle⟩ := exists_least name rest
    obtain ⟨before, after, hsplit, hbefore⟩ := List.eq_append_cons_of_mem hmem
    have hdrop : (name :: rest).dropWhile (fun name => name ≠ least) = least :: after := by
      rw [hsplit, List.dropWhile_append_of_pos (by
        intro other hother
        simpa using fun heq : other = least => hbefore (heq ▸ hother))]
      simp
    unfold rotateToLeast at hfirst
    simp only [hleast] at hfirst
    rw [hdrop] at hfirst
    cases hfirst
    exact hle

theorem rotateToLeast_of_head_le {first : String} {rest : List String}
    (h : ∀ other ∈ first :: rest, first ≤ other) :
    rotateToLeast (first :: rest) = first :: rest := by
  obtain ⟨least, hleast, hmem, hle⟩ := exists_least first rest
  have hfirst : least = first := String.le_antisymm (hle first List.mem_cons_self) (h least hmem)
  subst hfirst
  unfold rotateToLeast
  simp [hleast]

namespace Project

variable {p : Project} {m next : Machine} {chain loop : List String}

/-! ## Walks -/

/-- Following calls from a machine, the last one of a chain, comes to an end: at a machine that calls
none, or at one of the chain, and then the chain from there on is the result. -/
inductive Walk (p : Project) : List String → Machine → Option (List String) → Prop
  | ends {chain : List String} {m : Machine} : p.next? m = none → Walk p chain m none
  | closes {chain : List String} {m next : Machine} : p.next? m = some next → next.name ∈ chain →
      Walk p chain m (some (chain.dropWhile fun name => name ≠ next.name))
  | goes {chain : List String} {m next : Machine} {result : Option (List String)} :
      p.next? m = some next → next.name ∉ chain → Walk p (chain ++ [next.name]) next result →
      Walk p chain m result

theorem Walk.unique {result result' : Option (List String)} (h : p.Walk chain m result)
    (h' : p.Walk chain m result') : result = result' := by
  induction h generalizing result' with
  | ends hnone =>
    cases h' with
    | ends _ => rfl
    | closes hnext _ => cases hnone.symm.trans hnext
    | goes hnext _ _ => cases hnone.symm.trans hnext
  | closes hnext hseen =>
    cases h' with
    | ends hnone => cases hnone.symm.trans hnext
    | closes hnext' _ =>
      cases hnext.symm.trans hnext'
      rfl
    | goes hnext' hnew _ =>
      cases hnext.symm.trans hnext'
      exact absurd hseen hnew
  | goes hnext hnew _ ih =>
    cases h' with
    | ends hnone => cases hnone.symm.trans hnext
    | closes hnext' hseen =>
      cases hnext.symm.trans hnext'
      exact absurd hseen hnew
    | goes hnext' _ hrest =>
      cases hnext.symm.trans hnext'
      exact ih hrest

/-- With a bound above the number of machines, the bounded search does what a walk does. -/
theorem walk_follow (hp : p.WellFormed) {fuel : Nat} (hnodup : chain.Nodup)
    (hchain : ∀ name ∈ chain, name ∈ p.machineNames)
    (hfuel : p.machineCount < chain.length + fuel) : p.Walk chain m (p.follow chain m fuel) := by
  induction fuel generalizing chain m with
  | zero =>
    have hlength := hp.length_le_machineCount hnodup hchain
    omega
  | succ fuel ih =>
    unfold follow
    cases hnext : p.next? m with
    | none => exact .ends hnext
    | some next =>
      by_cases hseen : next.name ∈ chain
      · simp only [if_pos hseen]
        exact .closes hnext hseen
      · simp only [if_neg hseen]
        refine .goes hnext hseen (ih ?_ ?_ (by simp; omega))
        · refine List.nodup_append.mpr ⟨hnodup, List.nodup_singleton _, ?_⟩
          rintro a ha b hb rfl
          exact hseen (List.mem_singleton.mp hb ▸ ha)
        · intro name hname
          rcases List.mem_append.mp hname with hold | hlast
          · exact hchain name hold
          · rw [List.mem_singleton.mp hlast]
            exact hp.mem_names_of_machine? (hp.machine?_next hnext)

theorem walk_loopFrom? (hp : p.WellFormed) (hm : m ∈ p.machines.live) :
    p.Walk [m.name] m (p.loopFrom? m) := by
  refine walk_follow hp (List.nodup_singleton m.name) (fun name hname => ?_) (by simp; omega)
  rw [List.mem_singleton.mp hname]
  exact List.mem_map_of_mem hm

/-! ## Loops begun anywhere -/

/-- A walk that has come through the first part of a loop goes on through the rest of it. -/
theorem walk_of_isChain (hp : p.WellFormed) {first : String} {before rest : List String}
    (hnodup : (first :: before ++ rest).Nodup) (hm : p.machine? m.name = some m)
    (hcircle : (m.name :: (rest ++ [first])).IsChain p.Calls) :
    p.Walk (first :: before) m (some (first :: before ++ rest)) := by
  induction rest generalizing m before with
  | nil =>
    obtain ⟨m', next, hm', hnext, hname⟩ := (List.isChain_cons_cons.mp hcircle).1
    rw [hm] at hm'
    cases hm'
    have hcloses : p.Walk (first :: before) m _ := .closes hnext (hname ▸ List.mem_cons_self)
    rw [hname, List.dropWhile_cons_of_neg (by simp)] at hcloses
    rwa [List.append_nil]
  | cons second rest ih =>
    obtain ⟨⟨m', next, hm', hnext, rfl⟩, hrest⟩ := List.isChain_cons_cons.mp hcircle
    rw [hm] at hm'
    cases hm'
    have hnew : next.name ∉ first :: before := fun hmem =>
      (List.nodup_append.mp hnodup).2.2 _ hmem _ List.mem_cons_self rfl
    have hrest : p.Walk (first :: (before ++ [next.name])) next
        (some (first :: (before ++ [next.name]) ++ rest)) :=
      ih (by simpa using hnodup) (hp.machine?_next hnext) hrest
    exact .goes hnext hnew (by simpa using hrest)

/-- A walk from the first machine of a loop finds the loop. -/
theorem IsLoop.walk (hp : p.WellFormed) {first : String} {rest : List String}
    (h : p.IsLoop (first :: rest)) :
    ∃ m ∈ p.machines.live, m.name = first ∧ p.Walk [first] m (some (first :: rest)) := by
  obtain ⟨_, _, heq, hcircle⟩ := h.circle
  cases heq
  obtain ⟨m, -, hm, -⟩ := h.exists_next List.mem_cons_self
  obtain ⟨hlive, rfl⟩ := hp.machine?_eq_some_iff.mp hm
  have hwalk : p.Walk [m.name] m (some ([m.name] ++ rest)) :=
    walk_of_isChain hp h.nodup hm hcircle
  exact ⟨m, hlive, rfl, hwalk⟩

/-- A loop can be begun at any of its machines. -/
theorem IsLoop.of_isRotated {loop' : List String} (h : p.IsLoop loop) (hrotated : loop ~r loop') :
    p.IsLoop loop' := by
  obtain ⟨first, rest, hloop, hcircle⟩ := h.circle
  obtain ⟨n, hn, rfl⟩ := List.isRotated_iff_mod.mp hrotated
  refine ⟨(hrotated.nodup_iff).mp h.nodup, ?_⟩
  rw [List.rotate_eq_drop_append_take hn]
  have hsplit := List.take_append_drop n loop
  -- Cut where the loop shall begin, the circle is two chains, which are joined at its old beginning.
  cases hback : loop.drop n with
  | nil =>
    rw [hback, List.append_nil] at hsplit
    rw [hsplit, List.nil_append]
    exact ⟨first, rest, hloop, hcircle⟩
  | cons second after =>
    cases hfront : loop.take n with
    | nil =>
      rw [hfront, hback, List.nil_append] at hsplit
      rw [List.append_nil, hsplit]
      exact ⟨first, rest, hloop, hcircle⟩
    | cons first' before =>
      rw [hfront, hback] at hsplit
      rw [← hsplit] at hloop hcircle
      cases hloop
      refine ⟨second, after ++ first :: before, rfl, ?_⟩
      rw [List.append_assoc] at hcircle ⊢
      obtain ⟨hfirst, hsecond⟩ : (first :: before ++ [second]).IsChain p.Calls ∧
          (second :: (after ++ [first])).IsChain p.Calls := List.isChain_split.mp hcircle
      have hjoined : (second :: after ++ first :: (before ++ [second])).IsChain p.Calls :=
        List.isChain_split.mpr ⟨hsecond, hfirst⟩
      exact hjoined

/-- A loop that begins at a machine is the only one. -/
theorem IsLoop.eq_of_head (hp : p.WellFormed) {first : String} {rest rest' : List String}
    (h : p.IsLoop (first :: rest)) (h' : p.IsLoop (first :: rest')) : rest = rest' := by
  obtain ⟨m, hm, hname, hwalk⟩ := h.walk hp
  obtain ⟨m', hm', hname', hwalk'⟩ := h'.walk hp
  have heq : m = m' := by
    have hfound := hp.machine?_eq_some_iff.mpr ⟨hm, hname⟩
    rw [hp.machine?_eq_some_iff.mpr ⟨hm', hname'⟩] at hfound
    exact (Option.some.inj hfound).symm
  subst heq
  cases hwalk.unique hwalk'
  rfl

/-- Rotated to begin at one of its names. -/
theorem exists_isRotated_cons {names : List String} {name : String} (h : name ∈ names) :
    ∃ rest, names ~r name :: rest := by
  obtain ⟨before, after, rfl⟩ := List.append_of_mem h
  exact ⟨after ++ before, List.isRotated_append⟩

/-- Loops with a machine in common differ in where they begin only. -/
theorem IsLoop.isRotated_of_mem (hp : p.WellFormed) {loop' : List String} {name : String}
    (h : p.IsLoop loop) (h' : p.IsLoop loop') (hname : name ∈ loop) (hname' : name ∈ loop') :
    loop ~r loop' := by
  obtain ⟨rest, hrotated⟩ := exists_isRotated_cons hname
  obtain ⟨rest', hrotated'⟩ := exists_isRotated_cons hname'
  have heq := (h.of_isRotated hrotated).eq_of_head hp (h'.of_isRotated hrotated')
  exact hrotated.trans (heq ▸ hrotated'.symm)

theorem transGen_of_isChain {α : Type} {R : α → α → Prop} {a b : α} {l : List α}
    (h : (a :: (l ++ [b])).IsChain R) : Relation.TransGen R a b := by
  induction l generalizing a with
  | nil => exact .single (List.isChain_cons_cons.mp h).1
  | cons c l ih =>
    obtain ⟨hac, hrest⟩ := List.isChain_cons_cons.mp h
    exact .head hac (ih hrest)

/-- Every machine of a loop leads back to itself. -/
theorem IsLoop.transGen {name : String} (h : p.IsLoop loop) (hname : name ∈ loop) :
    Relation.TransGen p.Calls name name := by
  obtain ⟨rest, hrotated⟩ := exists_isRotated_cons hname
  obtain ⟨_, _, heq, hcircle⟩ := (h.of_isRotated hrotated).circle
  cases heq
  exact transGen_of_isChain hcircle

/-! ## Reported loops -/

theorem mem_callLoops_iff (hp : p.WellFormed) : loop ∈ p.callLoops ↔ p.IsLoop loop ∧
    ∀ first, loop.head? = some first → ∀ name ∈ loop, first ≤ name := by
  rw [mem_callLoops]
  constructor
  · rintro ⟨m, hm, found, hfound, rfl⟩
    have hrotated := isRotated_rotateToLeast found
    refine ⟨(isLoop_of_loopFrom? hp hm hfound).of_isRotated hrotated.symm, ?_⟩
    intro first hfirst name hname
    exact head_rotateToLeast_le hfirst name (hrotated.mem_iff.mp hname)
  · rintro ⟨hloop, hleast⟩
    obtain ⟨first, rest, rfl, -⟩ := hloop.circle
    obtain ⟨m, hm, rfl, hwalk⟩ := hloop.walk hp
    exact ⟨m, hm, _, (walk_loopFrom? hp hm).unique hwalk, rotateToLeast_of_head_le (hleast _ rfl)⟩

/-- A loop is reported under one name list only. -/
theorem eq_of_mem_callLoops (hp : p.WellFormed) {loop' : List String} {name : String}
    (h : loop ∈ p.callLoops) (h' : loop' ∈ p.callLoops) (hname : name ∈ loop)
    (hname' : name ∈ loop') : loop = loop' := by
  obtain ⟨hloop, hleast⟩ := (mem_callLoops_iff hp).mp h
  obtain ⟨hloop', hleast'⟩ := (mem_callLoops_iff hp).mp h'
  have hrotated := hloop.isRotated_of_mem hp hloop' hname hname'
  obtain ⟨first, rest, rfl, -⟩ := hloop.circle
  obtain ⟨first', rest', rfl, -⟩ := hloop'.circle
  have hfirst : first = first' := String.le_antisymm
    (hleast first rfl first' (hrotated.mem_iff.mpr List.mem_cons_self))
    (hleast' first' rfl first (hrotated.mem_iff.mp List.mem_cons_self))
  subst hfirst
  rw [hloop.eq_of_head hp hloop']

theorem nodup_eraseDups {α : Type} [BEq α] [LawfulBEq α] (l : List α) : l.eraseDups.Nodup := by
  induction hn : l.length using Nat.strong_induction_on generalizing l with
  | _ n ih =>
    cases l with
    | nil => exact List.nodup_nil
    | cons a l =>
      rw [List.eraseDups_cons]
      have hlength := List.length_filter_le (fun b => !b == a) l
      rw [List.length_cons] at hn
      refine List.nodup_cons.mpr ⟨fun hmem => ?_, ih _ (by omega) _ rfl⟩
      simpa using (List.mem_filter.mp (List.mem_eraseDups.mp hmem)).2

/-- No finding of another kind is a loop, and each loop is found once. -/
theorem count_analyze (hloop : .submachineCycle loop ∈ p.analyze) :
    p.analyze.count (.submachineCycle loop) = 1 := by
  have hcycles : p.submachineCycles.count (.submachineCycle loop) = 1 := by
    refine List.count_eq_one_of_mem ?_ (List.mem_map_of_mem (submachineCycle_mem_analyze.mp hloop))
    refine (nodup_eraseDups _).map fun a b hab => ?_
    cases hab
    rfl
  have hmissing : p.missingStartStates.count (.submachineCycle loop) = 0 :=
    List.count_eq_zero.mpr (by simp [missingStartStates])
  have hunknown : p.unknownSubmachines.count (.submachineCycle loop) = 0 :=
    List.count_eq_zero.mpr (by simp [unknownSubmachines, unknownCall?, Option.bind_eq_some_iff])
  have hunreachable : p.unreachableStates.count (.submachineCycle loop) = 0 :=
    List.count_eq_zero.mpr (by simp [unreachableStates, unreachableIssue?, Option.bind_eq_some_iff])
  unfold analyze Issue.sorted
  rw [(List.mergeSort_perm _ _).count_eq, List.count_append, List.count_append, List.count_append,
    hmissing, hunknown, hunreachable, hcycles]

/-- Following calls from any machine comes to an end, and the loops that are reported are those of
distinct machines that call one another in a circle, each begun at its name with the smallest bytes.
Every loop is reported under this beginning, once and under no other, and a machine that does not lead
back to itself is in no report. -/
theorem loops_reported_once {identity : Identity} (hp : p.Built identity) :
    (∀ m ∈ p.machines.live, p.Walk [m.name] m (p.loopFrom? m)) ∧
    (∀ names, .submachineCycle names ∈ p.analyze ↔ p.IsLoop names ∧
      ∀ first, names.head? = some first → ∀ name ∈ names, name = first ∨ bytes first < bytes name) ∧
    (∀ loop, p.IsLoop loop → ∃ names, .submachineCycle names ∈ p.analyze ∧ names ~r loop) ∧
    (∀ names, .submachineCycle names ∈ p.analyze →
      p.analyze.count (.submachineCycle names) = 1) ∧
    (∀ names names', .submachineCycle names ∈ p.analyze → .submachineCycle names' ∈ p.analyze →
      ∀ name ∈ names, name ∈ names' → names = names') ∧
    ∀ names, .submachineCycle names ∈ p.analyze → ∀ name ∈ names,
      Relation.TransGen p.Calls name name := by
  have hwf := hp.wellFormed
  refine ⟨fun m hm => walk_loopFrom? hwf hm, fun names => ?_, fun loop hloop => ?_,
    fun names => count_analyze, fun names names' h h' name hname hname' => ?_,
    fun names h name hname => ?_⟩
  · rw [submachineCycle_mem_analyze, mem_callLoops_iff hwf]
    refine and_congr_right fun _ => forall₂_congr fun first _ => forall₂_congr fun name _ => ?_
    rw [bytes_lt_bytes_iff, le_iff_eq_or_lt, eq_comm]
  · have hrotated := isRotated_rotateToLeast loop
    refine ⟨rotateToLeast loop, submachineCycle_mem_analyze.mpr ?_, hrotated⟩
    refine (mem_callLoops_iff hwf).mpr ⟨hloop.of_isRotated hrotated.symm, ?_⟩
    intro first hfirst name hname
    exact head_rotateToLeast_le hfirst name (hrotated.mem_iff.mp hname)
  · exact eq_of_mem_callLoops hwf (submachineCycle_mem_analyze.mp h)
      (submachineCycle_mem_analyze.mp h') hname hname'
  · exact ((mem_callLoops_iff hwf).mp (submachineCycle_mem_analyze.mp h)).1.transGen hname

/-- The broken sample with a machine `aside` that leads into the loop of the others. -/
def asideSample : Project × Identity :=
  [Edit.addMachine "aside",
    .editMachine "aside" (.addState "start"),
    .editMachine "aside" (.editState "start" (.setSubmachine (some "right")))].foldl
    (fun built edit => edit.apply built) brokenSample

/-- The loop is reported once, from its smaller name on, and the machine beside it is not. -/
theorem loop_of_asideSample :
    .submachineCycle ["left", "right"] ∈ asideSample.1.analyze ∧
    asideSample.1.analyze.count (.submachineCycle ["left", "right"]) = 1 ∧
    .submachineCycle ["right", "left"] ∉ asideSample.1.analyze ∧
    ∀ names, .submachineCycle names ∈ asideSample.1.analyze → "aside" ∉ names := by
  have hbuilt : asideSample.1.Built asideSample.2 := built_brokenSample.foldl_edit _
  obtain ⟨-, hiff, -, hcount, honly, -⟩ := loops_reported_once hbuilt
  have hloop : asideSample.1.IsLoop ["left", "right"] :=
    ⟨by decide, "left", ["right"], rfl, .cons_cons ⟨_, _, rfl, rfl, rfl⟩
      (.cons_cons ⟨_, _, rfl, rfl, rfl⟩ (.singleton _))⟩
  have hreported : .submachineCycle ["left", "right"] ∈ asideSample.1.analyze := by
    refine (hiff _).mpr ⟨hloop, fun first hfirst => ?_⟩
    cases hfirst
    decide +kernel
  refine ⟨hreported, hcount _ hreported, fun hother => ?_, fun names hnames haside => ?_⟩
  · exact absurd (honly _ _ hreported hother "left" (by decide) (by decide)) (by decide)
  · -- A loop through `aside` would go on to `right`, and so be the one that is reported.
    obtain ⟨m, next, hm, hnext, hmem⟩ := ((hiff names).mp hnames).1.exists_next haside
    cases hm
    cases hnext
    cases honly _ _ hnames hreported "right" hmem (by decide)
    revert haside
    decide

end Project

end HierarchicalTuring
