import HierarchicalTuring.Proofs.Document.Acceptance
import HierarchicalTuring.Proofs.Project.Built
import HierarchicalTuring.Proofs.State.Scan

/-! # The order of input characters

Of two inputs with the same characters a state takes the second for a repetition of the first only if
the characters first occur in the same order. Otherwise it refuses the second for its first character,
which the first one reads.

* `State.Indexed.addTransition_of_same_characters` says this of an addition to a state.
* `MachineDocument.Valid.relisted_iff` and `MachineDocument.Valid.fault_of_relisted` say it of a
  document that lists a transition once more, as `TransitionDocument.reading` another text.
* `Project.same_characters_need_same_order` puts this together. `Project.reordered_input_clashes` is a
  state, and a document, that refuse a transition for the order of its characters alone.
-/

set_option autoImplicit false

namespace HierarchicalTuring

theorem head?_firstOccurrences (text : List Char) :
    (firstOccurrences text).head? = text.head? := by
  rw [firstOccurrences_eq_eraseDups]
  cases text with
  | nil => rfl
  | cons c rest => rw [List.eraseDups_cons, List.head?_cons, List.head?_cons]

/-- If all characters of a text are claimed, its first one is found among the input made of it. -/
theorem exists_find?_firstOccurrences {text : List Char} (hne : text ≠ []) {claimed : Char → Bool}
    (hall : ∀ c ∈ text, claimed c = true) :
    ∃ c, text.head? = some c ∧ (firstOccurrences text).find? claimed = some c := by
  obtain ⟨c, rest, hcons⟩ := List.exists_cons_of_ne_nil (firstOccurrences_ne_nil hne)
  have hhead : text.head? = some c := by
    rw [← head?_firstOccurrences, hcons, List.head?_cons]
  refine ⟨c, hhead, ?_⟩
  rw [hcons, List.find?_cons_of_pos (hall c (List.mem_of_head? hhead))]

/-! ## States -/

theorem State.Indexed.addTransition_of_same_characters {s : State} {t : Transition}
    {id : TransitionId} (h : s.Indexed) (hstored : (id, t) ∈ s.transitions) {u : String}
    (hu : ∀ c, c ∈ u.toList ↔ c ∈ t.input) :
    (u.toList.eraseDups = t.input →
      s.addTransition (.make t.destination u t.output t.direction) = .ok (id, s)) ∧
    (u.toList.eraseDups ≠ t.input → ∃ c, u.toList.head? = some c ∧
      s.addTransition (.make t.destination u t.output t.direction) = .error (.inputInUse c)) := by
  rw [← firstOccurrences_eq_eraseDups]
  constructor
  · intro horder
    have hmake : Transition.make t.destination u t.output t.direction = t := by
      rw [Transition.make, horder]
    rw [hmake]
    exact h.addTransition_eq_ok_self_iff.mpr hstored
  · intro horder
    obtain ⟨c, hc⟩ := List.exists_mem_of_ne_nil t.input (h.input_ne_nil _ hstored)
    obtain ⟨first, hfirst, hclash⟩ :=
      exists_find?_firstOccurrences (List.ne_nil_of_mem ((hu c).mpr hc)) fun c hc =>
        State.claims_eq_true_iff.mpr ⟨_, hstored, (hu c).mp hc⟩
    refine ⟨first, hfirst, h.addTransition_eq_inputInUse_iff.mpr ⟨fun id' hsame => ?_, hclash⟩⟩
    -- A stored transition that reads one of the characters is `t` itself.
    have hmade : c ∈ firstOccurrences u.toList := mem_firstOccurrences.mpr ((hu c).mpr hc)
    exact horder (congrArg Transition.input (h.eq_of_reads hsame hstored hmade hc).2)

/-! ## Documents -/

namespace TransitionDocument

variable {a : TransitionDocument} {u : String} {states states' : NameMap StateDocument}

/-- The description with another input. -/
def reading (a : TransitionDocument) (u : String) : TransitionDocument :=
  { a with input := u }

theorem normal_reading_eq_iff : (a.reading u).normal = a.normal ↔
    u.toList.eraseDups = a.input.toList.eraseDups := by
  simp only [normal, reading, mk.injEq, true_and, and_true, firstOccurrences_eq_eraseDups]
  exact ⟨fun h => String.ofList_injective h, congrArg String.ofList⟩

theorem Valid.reading (ha : a.Valid states) (hu : u.toList ≠ []) : (a.reading u).Valid states :=
  ⟨ha.destination, ha.output, ha.move, hu⟩

/-- Only the names of the states count. -/
theorem Valid.of_isSome (ha : a.Valid states)
    (hnames : ∀ name, (states'.find? name).isSome = (states.find? name).isSome) :
    a.Valid states' := by
  refine ⟨?_, ha.output, ha.move, ha.input⟩
  rw [← Option.isSome_iff_exists, hnames, Option.isSome_iff_exists]
  exact ha.destination

/-- Transitions that are compatible and read a common character are the same. -/
theorem Compatible.normal_eq {a b : TransitionDocument} (h : a.Compatible b) {c : Char}
    (ha : c ∈ a.input.toList) (hb : c ∈ b.input.toList) : a.normal = b.normal :=
  h.resolve_right fun hapart => hapart c ha hb

/-- A transition listed again with its characters in another order is refused for the first of them. -/
theorem fault?_reading (state : String) {earlier : List TransitionDocument} (ha : a.Valid states)
    (hearlier : a ∈ earlier) (hcompatible : ∀ b ∈ earlier, a.Compatible b)
    (hu : ∀ c, c ∈ u.toList ↔ c ∈ a.input.toList)
    (horder : u.toList.eraseDups ≠ a.input.toList.eraseDups) : ∃ c, u.toList.head? = some c ∧
      (a.reading u).fault? states state earlier =
        some (.refusedTransition state (.inputInUse c)) := by
  obtain ⟨c, hc⟩ := List.exists_mem_of_ne_nil a.input.toList ha.input
  have hne : u.toList ≠ [] := List.ne_nil_of_mem ((hu c).mpr hc)
  obtain ⟨hdestination, ⟨output, houtput⟩, hmove, hinput⟩ := (valid_iff state).mp (ha.reading hne)
  have hnot : ¬ ∃ b ∈ earlier, (a.reading u).normal = b.normal := by
    rintro ⟨b, hb, hsame⟩
    have hcb : c ∈ b.input.toList := by
      rw [← mem_input_normal, ← hsame, mem_input_normal]
      exact (hu c).mpr hc
    have hsame' := (hcompatible b hb).normal_eq hc hcb
    exact horder (normal_reading_eq_iff.mp (hsame.trans hsame'.symm))
  obtain ⟨first, hfirst, hclash⟩ := exists_find?_firstOccurrences hne fun c hc =>
    show decide (∃ b ∈ earlier, c ∈ b.input.toList) = true from
      decide_eq_true ⟨a, hearlier, (hu c).mp hc⟩
  have hinput' : (a.reading u).normal.input.toList = firstOccurrences u.toList := String.toList_ofList
  refine ⟨first, hfirst, ?_⟩
  unfold fault?
  rw [if_neg (by simp [Option.isSome_iff_ne_none.mp hdestination]), houtput]
  simp only [if_neg hinput, if_neg hnot, hinput', hclash, Option.isNone_iff_eq_none,
    Option.isSome_iff_ne_none.mp hmove, if_false, Option.map_some]

end TransitionDocument

theorem StateDocument.faultsFrom_append (states : NameMap StateDocument) (state : String)
    (earlier l r : List TransitionDocument) :
    faultsFrom states state earlier (l ++ r) =
      faultsFrom states state earlier l ++ faultsFrom states state (earlier ++ l) r := by
  induction l generalizing earlier with
  | nil => rw [List.nil_append, List.append_nil, faultsFrom, List.nil_append]
  | cons t l ih =>
    rw [List.cons_append, faultsFrom, faultsFrom, ih, List.append_assoc, List.append_assoc]
    rfl

namespace MachineDocument

variable {d : MachineDocument} {e : StateDocument} {state u : String}
  {l r : List TransitionDocument} {a : TransitionDocument}

/-- The document with other transitions for one of its states. -/
def relisted (d : MachineDocument) (state : String) (e : StateDocument)
    (transitions : List TransitionDocument) : MachineDocument :=
  { d with states := d.states.insert state { e with transitions } }

theorem find?_relisted (transitions : List TransitionDocument) (name : String) :
    (d.relisted state e transitions).states.find? name =
      if name = state then some { e with transitions } else d.states.find? name :=
  NameMap.find?_insert _ _ _ _

theorem mem_entries_relisted {transitions : List TransitionDocument}
    {entry : String × StateDocument} :
    entry ∈ (d.relisted state e transitions).states.entries ↔
      entry = (state, { e with transitions }) ∨ (entry ∈ d.states.entries ∧ entry.1 ≠ state) :=
  NameMap.mem_insertInto_iff d.states.increase

theorem isSome_find?_relisted (he : d.states.find? state = some e)
    (transitions : List TransitionDocument) (name : String) :
    ((d.relisted state e transitions).states.find? name).isSome = (d.states.find? name).isSome := by
  rw [find?_relisted]
  split
  · next hname => rw [hname, he, Option.isSome_some, Option.isSome_some]
  · rfl

namespace Valid

variable (hd : d.Valid) (he : d.states.find? state = some e) (hlist : e.transitions = l ++ r)
  (ha : a ∈ l) (hu : ∀ c, c ∈ u.toList ↔ c ∈ a.input.toList)

include hd he hlist in
theorem of_listed (b : TransitionDocument) (hb : b ∈ l ++ r) :
    b.Valid d.states ∧ ∀ c ∈ l ++ r, b.Compatible c := by
  have hmem := NameMap.find?_eq_some_iff.mp he
  rw [← hlist] at hb ⊢
  exact ⟨hd.transition _ hmem b hb, hd.apart _ hmem b hb⟩

include hd he hlist ha hu in
theorem eraseDups_eq_of_relisted (h : (d.relisted state e (l ++ a.reading u :: r)).Valid) :
    u.toList.eraseDups = a.input.toList.eraseDups := by
  obtain ⟨hvalid, -⟩ := of_listed hd he hlist a (List.mem_append_left r ha)
  obtain ⟨c, hc⟩ := List.exists_mem_of_ne_nil a.input.toList hvalid.input
  have hagain : (a.reading u).Compatible a :=
    h.apart _ (mem_entries_relisted.mpr (.inl rfl)) _ (List.mem_append_right l List.mem_cons_self)
      _ (List.mem_append_left _ ha)
  exact TransitionDocument.normal_reading_eq_iff.mp (hagain.normal_eq ((hu c).mpr hc) hc)

include hd he hlist ha hu in
theorem relisted (horder : u.toList.eraseDups = a.input.toList.eraseDups) :
    (d.relisted state e (l ++ a.reading u :: r)).Valid := by
  have hlisted := of_listed hd he hlist
  obtain ⟨hvalid, hcompatible⟩ := hlisted a (List.mem_append_left r ha)
  obtain ⟨c, hc⟩ := List.exists_mem_of_ne_nil a.input.toList hvalid.input
  have hne : u.toList ≠ [] := List.ne_nil_of_mem ((hu c).mpr hc)
  have hnames := isSome_find?_relisted he (l ++ a.reading u :: r)
  have hcases : ∀ {b}, b ∈ l ++ a.reading u :: r → b = a.reading u ∨ b ∈ l ++ r := by
    intro b hb
    simpa [or_left_comm] using hb
  -- What is listed again is compatible with whatever the first listing is compatible with.
  have hagain : ∀ b ∈ l ++ r, (a.reading u).Compatible b := fun b hb =>
    .of_normal_eq (TransitionDocument.normal_reading_eq_iff.mpr horder) (hcompatible b hb)
  refine ⟨fun entry hentry b hb => ?_, fun entry hentry b hb b' hb' => ?_⟩
  · rcases mem_entries_relisted.mp hentry with rfl | ⟨hold, -⟩
    · rcases hcases hb with rfl | hb
      · exact (hvalid.reading hne).of_isSome hnames
      · exact (hlisted b hb).1.of_isSome hnames
    · exact (hd.transition entry hold b hb).of_isSome hnames
  · rcases mem_entries_relisted.mp hentry with rfl | ⟨hold, -⟩
    · rcases hcases hb with rfl | hb
      · rcases hcases hb' with rfl | hb'
        · exact TransitionDocument.Compatible.refl _
        · exact hagain b' hb'
      · rcases hcases hb' with rfl | hb'
        · exact (hagain b hb).symm
        · exact (hlisted b hb).2 b' hb'
    · exact hd.apart entry hold b hb b' hb'

include hd he hlist ha hu in
/-- A transition may be listed again with the same characters in the same order, and in no other. -/
theorem relisted_iff : (d.relisted state e (l ++ a.reading u :: r)).Valid ↔
    u.toList.eraseDups = a.input.toList.eraseDups :=
  ⟨eraseDups_eq_of_relisted hd he hlist ha hu, relisted hd he hlist ha hu⟩

include hd he hlist ha hu in
/-- If the order is another one, the first fault is that a character is read twice. -/
theorem fault_of_relisted (horder : u.toList.eraseDups ≠ a.input.toList.eraseDups)
    {fault : MachineFault}
    (hfault : (d.relisted state e (l ++ a.reading u :: r)).faults.head? = some fault) :
    ∃ c, u.toList.head? = some c ∧ fault = .refusedTransition state (.inputInUse c) := by
  have hlisted := of_listed hd he hlist
  have hnames := isSome_find?_relisted he (l ++ a.reading u :: r)
  obtain ⟨before, entry, after, hentries, -, hfirst⟩ := exists_first_fault hfault
  have hmem : entry ∈ (d.relisted state e (l ++ a.reading u :: r)).states.entries :=
    hentries ▸ List.mem_append_right _ List.mem_cons_self
  rcases mem_entries_relisted.mp hmem with rfl | ⟨hold, -⟩
  · have hl : StateDocument.faultsFrom (d.relisted state e (l ++ a.reading u :: r)).states state
        [] l = [] := by
      refine StateDocument.faultsFrom_nil_eq_nil_iff.mpr ⟨fun b hb => ?_, fun b hb b' hb' => ?_⟩
      · exact (hlisted b (List.mem_append_left r hb)).1.of_isSome hnames
      · exact (hlisted b (List.mem_append_left r hb)).2 b' (List.mem_append_left r hb')
    obtain ⟨hvalid, hcompatible⟩ := hlisted a (List.mem_append_left r ha)
    obtain ⟨c, hc, hagain⟩ := TransitionDocument.fault?_reading state (hvalid.of_isSome hnames) ha
      (fun b hb => hcompatible b (List.mem_append_left r hb)) hu horder
    rw [StateDocument.faultsFrom_append, hl, List.nil_append, List.nil_append,
      StateDocument.faultsFrom, hagain] at hfirst
    cases hfirst
    exact ⟨c, hc, rfl⟩
  · have hnone : StateDocument.faultsFrom (d.relisted state e (l ++ a.reading u :: r)).states
        entry.1 [] entry.2.transitions = [] :=
      StateDocument.faultsFrom_nil_eq_nil_iff.mpr
        ⟨fun b hb => (hd.transition entry hold b hb).of_isSome hnames, hd.apart entry hold⟩
    rw [hnone] at hfirst
    cases hfirst

end Valid

/-- What is listed again in the same order leaves the normal form as it is. -/
theorem normal_relisted (he : d.states.find? state = some e) (hlist : e.transitions = l ++ r)
    (ha : a ∈ l) (horder : u.toList.eraseDups = a.input.toList.eraseDups) :
    (d.relisted state e (l ++ a.reading u :: r)).normal = d.normal := by
  have hstate : StateDocument.normal { e with transitions := l ++ a.reading u :: r } = e.normal := by
    have hthere : (a.reading u).normal ∈ (l.foldl StateDocument.add e.bare).transitions :=
      StateDocument.mem_transitions_foldl_add.mpr
        (.inr ⟨a, ha, TransitionDocument.normal_reading_eq_iff.mpr horder⟩)
    have hadd : (l.foldl StateDocument.add e.bare).add (a.reading u) =
        l.foldl StateDocument.add e.bare :=
      if_pos hthere
    show (l ++ a.reading u :: r).foldl StateDocument.add e.bare =
      e.transitions.foldl StateDocument.add e.bare
    rw [hlist, List.foldl_append, List.foldl_append, List.foldl_cons, hadd]
  have hstates : (d.relisted state e (l ++ a.reading u :: r)).states.map StateDocument.normal =
      d.states.map StateDocument.normal := by
    refine NameMap.ext_find? fun name => ?_
    rw [NameMap.find?_map, NameMap.find?_map, find?_relisted]
    split
    · next hname => rw [hname, he, Option.map_some, Option.map_some, hstate]
    · rfl
  exact congrArg (MachineDocument.mk · none) hstates

end MachineDocument

/-! ## Projects -/

namespace Project

variable {documents : ProjectDocument} {machine : String} {d d' : MachineDocument}

theorem exists_build_iff (next : Identity) (documents : ProjectDocument) :
    (∃ built, build next documents = .ok built) ↔ ∀ entry ∈ documents.entries, entry.2.Valid := by
  constructor
  · rintro ⟨built, hbuilt⟩
    by_contra hinvalid
    obtain ⟨_, _, _, -, -, -, -, herror⟩ := build_of_invalid hinvalid next
    rw [hbuilt] at herror
    cases herror
  · intro hvalid
    obtain ⟨q, next', hq, -⟩ := build_of_valid hvalid next
    exact ⟨_, hq⟩

theorem forall_valid_insert_iff (hvalid : ∀ entry ∈ documents.entries, entry.2.Valid)
    (machine : String) (d' : MachineDocument) :
    (∀ entry ∈ (documents.insert machine d').entries, entry.2.Valid) ↔ d'.Valid := by
  have hmem : ∀ {entry}, entry ∈ (documents.insert machine d').entries ↔
      entry = (machine, d') ∨ (entry ∈ documents.entries ∧ entry.1 ≠ machine) :=
    NameMap.mem_insertInto_iff documents.increase
  constructor
  · exact fun h => h (machine, d') (hmem.mpr (.inl rfl))
  · rintro hd' entry hentry
    rcases hmem.mp hentry with rfl | ⟨hold, -⟩
    · exact hd'
    · exact hvalid entry hold

theorem map_normal_insert (hd : documents.find? machine = some d) (hsame : d'.normal = d.normal) :
    (documents.insert machine d').map MachineDocument.normal =
      documents.map MachineDocument.normal := by
  refine NameMap.ext_find? fun name => ?_
  rw [NameMap.find?_map, NameMap.find?_map, NameMap.find?_insert]
  split
  · next hname => rw [hname, hd, Option.map_some, Option.map_some, hsame]
  · rfl

/-- A text has the same characters as the input of a stored transition. If they first occur in the same
order, adding the edge with this text answers with the number of the stored transition and leaves the
state as it is, and a document that builds a project may list the edge a second time with this text:
it builds a project of the same description. In any other order the first character of the text is
refused, by the state as by the document. -/
theorem same_characters_need_same_order {identity : Identity} {p : Project}
    (hp : p.Built identity) {m : Machine} (hm : m ∈ p.machines.live) {s : State}
    (hs : s ∈ m.states.live) {id : TransitionId} {t : Transition}
    (hstored : (id, t) ∈ s.transitions) {u : String}
    (hu : ∀ c, c ∈ u.toList ↔ t.reads c = true) :
    (u.toList.eraseDups = t.input →
      s.addTransition (.make t.destination u t.output t.direction) = .ok (id, s)) ∧
    (u.toList.eraseDups ≠ t.input → ∃ c, u.toList.head? = some c ∧
      s.addTransition (.make t.destination u t.output t.direction) = .error (.inputInUse c)) ∧
    ∀ (next : Identity) (documents : ProjectDocument) (built : Project × Identity),
      build next documents = .ok built →
      ∀ machine d state e l r, documents.find? machine = some d → d.states.find? state = some e →
      e.transitions = l ++ r → ∀ a ∈ l, (∀ c, c ∈ a.input.toList ↔ t.reads c = true) →
        (u.toList.eraseDups = a.input.toList.eraseDups → ∃ again,
          build next (documents.insert machine (d.relisted state e (l ++ a.reading u :: r))) =
            .ok again ∧ again.1.toDocuments = built.1.toDocuments) ∧
        (u.toList.eraseDups ≠ a.input.toList.eraseDups → ∃ c, u.toList.head? = some c ∧
          build next (documents.insert machine (d.relisted state e (l ++ a.reading u :: r))) =
            .error (ProjectFault.inMachine machine
              (.refusedTransition state (.inputInUse c))).toError) := by
  have hindexed : s.Indexed := (hp.wellFormed.live m hm).live s hs
  obtain ⟨hsame, hother⟩ := hindexed.addTransition_of_same_characters hstored fun c =>
    (hu c).trans decide_eq_true_iff
  refine ⟨hsame, hother, ?_⟩
  intro next documents built hbuilt machine d state e l r hd he hlist a ha hread
  have hua : ∀ c, c ∈ u.toList ↔ c ∈ a.input.toList := fun c => (hu c).trans (hread c).symm
  have hvalid := (exists_build_iff next documents).mp ⟨built, hbuilt⟩
  have hdvalid : d.Valid := hvalid _ (NameMap.find?_eq_some_iff.mp hd)
  have hboth := forall_valid_insert_iff hvalid machine (d.relisted state e (l ++ a.reading u :: r))
  rw [hdvalid.relisted_iff he hlist ha hua] at hboth
  constructor
  · intro horder
    obtain ⟨q, next', hq, hdocuments⟩ := build_of_valid hvalid next
    obtain ⟨q', next'', hq', hdocuments'⟩ := build_of_valid (hboth.mpr horder) next
    rw [map_normal_insert hd (MachineDocument.normal_relisted he hlist ha horder)] at hdocuments'
    rw [hbuilt] at hq
    cases hq
    exact ⟨_, hq', hdocuments'.trans hdocuments.symm⟩
  · intro horder
    obtain ⟨name, faulty, fault, hfaulty, hinvalid, hfault, -, herror⟩ :=
      build_of_invalid (mt hboth.mp horder) next
    rw [NameMap.find?_insert] at hfaulty
    split at hfaulty
    · next hname =>
      cases hfaulty
      obtain ⟨c, hc, rfl⟩ := hdvalid.fault_of_relisted he hlist ha hua horder hfault
      exact ⟨c, hc, hname ▸ herror⟩
    · exact absurd (hvalid _ (NameMap.find?_eq_some_iff.mp hfaulty)) hinvalid

/-- The start state of the only machine has a loop that reads `a` and `b`. -/
def loopedSample : Project × Identity :=
  [Edit.addMachine "m",
    .editMachine "m" (.addState "start"),
    .editMachine "m" (.addTransition "start" "start" "ab" none .right)].foldl
    (fun built edit => edit.apply built) (Project.new 0, 1)

/-- A document of a machine with one state and loops that read some texts. -/
def loopsListed (inputs : List String) : ProjectDocument :=
  .ofList [("m", {
    states := .ofList [("start", {
      transitions := inputs.map fun input => ⟨"start", input, none, "R"⟩
      accepting := false
      submachine := none
      position := default })]
    submachines := none })]

/-- The loop is found again for a text that repeats a character, and is refused for one that has the
same characters in another order. -/
theorem order_of_loopedSample : ∃ m s t, loopedSample.1.machine? "m" = some m ∧
    m.state? "start" = some s ∧ (0, t) ∈ s.transitions ∧
    s.addTransition (.make t.destination "aab" t.output t.direction) = .ok (0, s) ∧
    s.addTransition (.make t.destination "ba" t.output t.direction) = .error (.inputInUse 'b') ∧
    ∃ built, build 0 (loopsListed ["ab", "c"]) = .ok built ∧
      (∃ again, build 0 (loopsListed ["ab", "aab", "c"]) = .ok again ∧
        again.1.toDocuments = built.1.toDocuments) ∧
      build 0 (loopsListed ["ab", "ba", "c"]) = .error (ProjectFault.inMachine "m"
        (.refusedTransition "start" (.inputInUse 'b'))).toError := by
  let m := (loopedSample.1.machine? "m").get rfl
  let s := (m.state? "start").get rfl
  let t : Transition := ⟨⟨1, 0⟩, ['a', 'b'], none, .right⟩
  have hstored : (0, t) ∈ s.transitions := List.mem_cons_self
  have hm : m ∈ loopedSample.1.machines.live := List.mem_cons_self
  have hs : s ∈ m.states.live := List.mem_cons_self
  let a : TransitionDocument := ⟨"start", "ab", none, "R"⟩
  let d := ((loopsListed ["ab", "c"]).find? "m").get rfl
  let e := (d.states.find? "start").get rfl
  let built := (build 0 (loopsListed ["ab", "c"])).toOption.get rfl
  have hbuilt : loopedSample.1.Built loopedSample.2 := (Built.new 0).foldl_edit _
  have hread : ∀ c, c ∈ a.input.toList ↔ t.reads c = true := by simp [Transition.reads, a, t]
  obtain ⟨hfound, -, hlisted⟩ :=
    same_characters_need_same_order hbuilt hm hs hstored
      (show ∀ c, c ∈ "aab".toList ↔ t.reads c = true by simp [Transition.reads, t])
  obtain ⟨hagain, -⟩ := hlisted 0 (loopsListed ["ab", "c"]) built rfl "m" d "start" e [a]
    [⟨"start", "c", none, "R"⟩] rfl rfl rfl a List.mem_cons_self hread
  obtain ⟨again, hagain, hsame⟩ := hagain (by decide +kernel)
  obtain ⟨-, hrefused, hlisted'⟩ :=
    same_characters_need_same_order hbuilt hm hs hstored
      (show ∀ c, c ∈ "ba".toList ↔ t.reads c = true by simp [Transition.reads, t, or_comm])
  obtain ⟨first, hfirst, hrefused⟩ := hrefused (by decide +kernel)
  obtain ⟨-, hfault⟩ := hlisted' 0 (loopsListed ["ab", "c"]) built rfl "m" d "start" e [a]
    [⟨"start", "c", none, "R"⟩] rfl rfl rfl a List.mem_cons_self hread
  obtain ⟨first', hfirst', hfault⟩ := hfault (by decide +kernel)
  cases hfirst
  cases hfirst'
  exact ⟨m, s, t, rfl, rfl, hstored, hfound (by decide +kernel), hrefused, built, rfl,
    ⟨again, hagain, hsame⟩, hfault⟩

/-- A state refuses a transition that differs from a stored one in the order of its input characters
alone, and a document that lists both describes no project. -/
theorem reordered_input_clashes : ∃ m s t, loopedSample.1.machine? "m" = some m ∧
    m.state? "start" = some s ∧ (0, t) ∈ s.transitions ∧
    (∀ c, c ∈ "ba".toList ↔ t.reads c = true) ∧
    s.addTransition (.make t.destination "ba" t.output t.direction) = .error (.inputInUse 'b') ∧
    ¬ ∃ built, build 0 (loopsListed ["ab", "ba"]) = .ok built := by
  let m := (loopedSample.1.machine? "m").get rfl
  let s := (m.state? "start").get rfl
  let t : Transition := ⟨⟨1, 0⟩, ['a', 'b'], none, .right⟩
  have hrefused : (build 0 (loopsListed ["ab", "ba"])).toOption.isNone = true := by decide +kernel
  refine ⟨m, s, t, rfl, rfl, List.mem_cons_self, fun c => ?_, rfl, ?_⟩
  · simp [Transition.reads, t, or_comm]
  · rintro ⟨built, hbuilt⟩
    rw [hbuilt] at hrefused
    cases hrefused

end Project

end HierarchicalTuring
