import Mathlib.Data.List.Induction
import Pinout.Proofs.Board.Unambiguous

/-! What the assignments of a text come to. Only the assignments of a resource after its last
clearance are live. The policy chooses among them, the first of them gives the resource its
place among the others, and each further one is reported. -/

set_option autoImplicit false

namespace Pinout.Board

/-! ## Live runs -/

def Declaration.assignment? (declaration : Declaration) : Option Assignment :=
  match declaration.statement with
  | .assign id pin => some ⟨id, pin, declaration.line⟩
  | _ => none

def Assignment.declared (assignment : Assignment) : Declaration :=
  ⟨assignment.line, .assign assignment.id assignment.pin⟩

/-- The declarations after the last one that clears a resource. -/
def sinceClear (id : ResourceId) (declarations : List Declaration) : List Declaration :=
  (declarations.reverse.takeWhile fun declaration => declaration.statement ≠ .clear id).reverse

/-- The assignments of a resource after its last clearance, in line order. -/
def liveRun (id : ResourceId) (declarations : List Declaration) : List Assignment :=
  ((sinceClear id declarations).filterMap Declaration.assignment?).filter fun assignment =>
    assignment.id = id

/-- The assignment of a live run that counts. -/
def Policy.choice : Policy → List Assignment → Option Assignment
  | .lastWins, run => run.getLast?
  | .firstWins, run | .reject, run => run.head?

/-- The live run of one resource starts on an earlier line than that of the other. -/
def Precedes (declarations : List Declaration) (left right : ResourceId) : Prop :=
  ∃ first second, (liveRun left declarations).head? = some first ∧
    (liveRun right declarations).head? = some second ∧ first.line < second.line

section LiveRuns

variable {declarations : List Declaration} {declaration : Declaration} {id : ResourceId}

theorem Declaration.assignment?_eq_some_iff {assignment : Assignment} :
    declaration.assignment? = some assignment ↔ declaration = assignment.declared := by
  obtain ⟨line, statement⟩ := declaration
  obtain ⟨id, pin, number⟩ := assignment
  cases statement <;> simp [assignment?, Assignment.declared, and_comm, and_assoc]

@[simp] theorem liveRun_nil : liveRun id [] = [] := rfl

/-- A declaration that clears a resource ends its run; one that does not adds what it assigns. -/
theorem liveRun_concat :
    liveRun id (declarations ++ [declaration]) =
      if declaration.statement = .clear id then []
      else liveRun id declarations ++
        (declaration.assignment?.toList.filter fun assignment => assignment.id = id) := by
  unfold liveRun sinceClear
  rw [List.reverse_concat]
  split
  · rename_i clears
    rw [List.takeWhile_cons_of_neg (by simpa using clears)]
    rfl
  · rename_i keeps
    rw [List.takeWhile_cons_of_pos (by simpa using keeps), List.reverse_cons, List.filterMap_append,
      List.filter_append]
    cases assigned : declaration.assignment? <;> simp [assigned]

theorem liveRun_assign {pin : Pin} (said : declaration.statement = .assign id pin) :
    liveRun id (declarations ++ [declaration]) =
      liveRun id declarations ++ [⟨id, pin, declaration.line⟩] := by
  simp [liveRun_concat, Declaration.assignment?, said]

theorem liveRun_clear (said : declaration.statement = .clear id) :
    liveRun id (declarations ++ [declaration]) = [] := by
  rw [liveRun_concat, if_pos said]

theorem liveRun_of_other (keeps : declaration.statement ≠ .clear id)
    (elsewhere : ∀ pin, declaration.statement ≠ .assign id pin) :
    liveRun id (declarations ++ [declaration]) = liveRun id declarations := by
  rw [liveRun_concat, if_neg keeps]
  cases said : declaration.statement with
  | assign other pin =>
      have apart : other ≠ id := fun same => elsewhere pin (same ▸ said)
      simp [Declaration.assignment?, said, apart]
  | _ => simp [Declaration.assignment?, said]

theorem mem_liveRun_iff {assignment : Assignment} :
    assignment ∈ liveRun id declarations ↔ assignment.id = id ∧
      ∃ before after, declarations = before ++ assignment.declared :: after ∧
        ∀ later ∈ after, later.statement ≠ .clear id := by
  induction declarations using List.reverseRecOn with
  | nil => simp
  | append_singleton declarations declaration ih =>
      simp only [Grouping.concat_eq_append_cons_iff]
      rw [liveRun_concat]
      split
      · rename_i clears
        simp only [List.not_mem_nil, false_iff]
        rintro ⟨_, before, after, ⟨rfl, rfl, rfl⟩ | ⟨front, rfl, _⟩, quiet⟩
        · cases clears
        · exact quiet declaration (by simp) clears
      · rename_i keeps
        simp only [List.mem_append, List.mem_filter, Option.mem_toList, decide_eq_true_eq,
          Declaration.assignment?_eq_some_iff, ih]
        constructor
        · rintro (⟨named, before, front, rfl, quiet⟩ | ⟨last, named⟩)
          · refine ⟨named, before, front ++ [declaration], .inr ⟨front, rfl, rfl⟩, ?_⟩
            intro later member
            rcases List.mem_append.mp member with inside | last
            · exact quiet later inside
            · exact List.mem_singleton.mp last ▸ keeps
          · exact ⟨named, declarations, [], .inl ⟨rfl, rfl, last⟩, by simp⟩
        · rintro ⟨named, before, after, ⟨rfl, rfl, last⟩ | ⟨front, rfl, rfl⟩, quiet⟩
          · exact .inr ⟨last, named⟩
          · exact .inl ⟨named, before, front, rfl, fun later inside =>
              quiet later (List.mem_append_left _ inside)⟩

theorem exists_declaration_of_mem_liveRun {assignment : Assignment}
    (member : assignment ∈ liveRun id declarations) :
    ∃ declaration ∈ declarations, declaration.line = assignment.line := by
  obtain ⟨_, before, after, rfl, _⟩ := mem_liveRun_iff.mp member
  exact ⟨_, List.mem_append_right before List.mem_cons_self, rfl⟩

end LiveRuns

/-! ## Resources -/

/-- The resources are what the policy makes of the live runs, in the order of the lines on
which these start. -/
structure Reflects (policy : Policy) (declarations : List Declaration)
    (resources : List Assignment) : Prop where
  settled : ∀ id, (resources.find? fun assignment => assignment.id = id) =
    policy.choice (liveRun id declarations)
  ordered : (resources.map (·.id)).Pairwise (Precedes declarations)

section Resources

variable {policy : Policy} {declarations : List Declaration} {declaration : Declaration}
  {resources : List Assignment} {id : ResourceId} {pin : Pin}

theorem Policy.choice_eq_none_iff (policy : Policy) {run : List Assignment} :
    policy.choice run = none ↔ run = [] := by
  cases policy <;> simp [choice]

theorem Policy.mem_of_choice {run : List Assignment} {assignment : Assignment}
    (chosen : policy.choice run = some assignment) : assignment ∈ run := by
  cases policy with
  | lastWins => exact List.mem_of_getLast? chosen
  | firstWins => exact List.mem_of_head? chosen
  | reject => exact List.mem_of_head? chosen

theorem Reflects.live (reflects : Reflects policy declarations resources) :
    (∃ assignment ∈ resources, assignment.id = id) ↔ liveRun id declarations ≠ [] := by
  rw [ne_eq, ← policy.choice_eq_none_iff, ← reflects.settled id, List.find?_eq_none]
  simp

theorem Precedes.concat {left right : ResourceId} (before : Precedes declarations left right)
    (keepsLeft : declaration.statement ≠ .clear left)
    (keepsRight : declaration.statement ≠ .clear right) :
    Precedes (declarations ++ [declaration]) left right := by
  obtain ⟨first, second, opens, follows, earlier⟩ := before
  refine ⟨first, second, ?_, ?_, earlier⟩
  · rw [liveRun_concat, if_neg keepsLeft, List.head?_append, opens, Option.some_or]
  · rw [liveRun_concat, if_neg keepsRight, List.head?_append, follows, Option.some_or]

theorem Reflects.ordered_concat (reflects : Reflects policy declarations resources)
    {ids : List ResourceId} (kept : ids.Sublist (resources.map (·.id)))
    (keeps : ∀ id ∈ ids, declaration.statement ≠ .clear id) :
    ids.Pairwise (Precedes (declarations ++ [declaration])) :=
  (reflects.ordered.sublist kept).imp_of_mem fun left right before =>
    before.concat (keeps _ left) (keeps _ right)

private theorem find?_replace (assignment : Assignment) :
    ((resources.map fun earlier =>
        if earlier.id = assignment.id then assignment else earlier).find? fun found =>
          found.id = id) =
      (resources.find? fun found => found.id = id).map fun earlier =>
        if earlier.id = assignment.id then assignment else earlier := by
  rw [List.find?_map]
  congr 2
  funext earlier
  by_cases same : earlier.id = assignment.id <;> simp [same]

theorem find?_replace_of_ne (assignment : Assignment) (apart : id ≠ assignment.id) :
    ((resources.map fun earlier =>
        if earlier.id = assignment.id then assignment else earlier).find? fun found =>
          found.id = id) = resources.find? fun found => found.id = id := by
  rw [find?_replace]
  cases found : resources.find? fun found => found.id = id with
  | none => rfl
  | some earlier =>
      have named : earlier.id = id := by simpa using List.find?_some found
      rw [Option.map_some, if_neg (named ▸ apart)]

theorem find?_replace_self (assignment : Assignment)
    (present : ∃ earlier ∈ resources, earlier.id = assignment.id) :
    ((resources.map fun earlier =>
        if earlier.id = assignment.id then assignment else earlier).find? fun found =>
          found.id = assignment.id) = some assignment := by
  rw [find?_replace]
  cases found : resources.find? fun found => found.id = assignment.id with
  | none =>
      obtain ⟨earlier, member, named⟩ := present
      exact absurd named (by simpa using List.find?_eq_none.mp found earlier member)
  | some earlier =>
      have named : earlier.id = assignment.id := by simpa using List.find?_some found
      rw [Option.map_some, if_pos named]

theorem liveRun_of_apart {other : ResourceId} (said : declaration.statement = .assign id pin)
    (apart : other ≠ id) :
    liveRun other (declarations ++ [declaration]) = liveRun other declarations := by
  refine liveRun_of_other (by simp [said]) ?_
  intro pin same
  rw [said] at same
  cases same
  exact apart rfl

theorem Reflects.assign_again (reflects : Reflects policy declarations resources)
    (said : declaration.statement = .assign id pin)
    (present : ∃ earlier ∈ resources, earlier.id = id) :
    Reflects policy (declarations ++ [declaration])
      (addResource policy resources declaration) := by
  have live : liveRun id declarations ≠ [] := reflects.live.mp present
  have repeats : (resources.any fun earlier => earlier.id = id) = true := by simpa using present
  have kept : (resources.map (·.id)).Pairwise (Precedes (declarations ++ [declaration])) :=
    reflects.ordered_concat (List.Sublist.refl _) (by simp [said])
  unfold addResource
  rw [said]
  dsimp only
  rw [if_pos repeats]
  constructor
  case settled =>
    intro other
    by_cases same : other = id
    · subst same
      rw [liveRun_assign said]
      cases policy with
      | lastWins =>
          rw [find?_replace_self ⟨other, pin, declaration.line⟩ present,
            Policy.choice, List.getLast?_concat]
      | firstWins =>
          rw [reflects.settled, Policy.choice, Policy.choice, List.head?_append_of_ne_nil _ live]
      | reject =>
          rw [reflects.settled, Policy.choice, Policy.choice, List.head?_append_of_ne_nil _ live]
    · rw [liveRun_of_apart said same, ← reflects.settled other]
      cases policy with
      | lastWins => exact find?_replace_of_ne ⟨id, pin, declaration.line⟩ same
      | firstWins => rfl
      | reject => rfl
  case ordered =>
    cases policy with
    | lastWins =>
        rw [map_key_replace Assignment.id ⟨id, pin, declaration.line⟩]
        exact kept
    | firstWins => exact kept
    | reject => exact kept

/-- A new assignment opens a run after all others. -/
theorem Reflects.assign_new (reflects : Reflects policy declarations resources)
    (grown : ∀ earlier ∈ declarations, earlier.line < declaration.line)
    (said : declaration.statement = .assign id pin)
    (absent : ¬ ∃ earlier ∈ resources, earlier.id = id) :
    Reflects policy (declarations ++ [declaration])
      (addResource policy resources declaration) := by
  have opens : liveRun id (declarations ++ [declaration]) = [⟨id, pin, declaration.line⟩] := by
    rw [liveRun_assign said, not_not.mp (mt reflects.live.mpr absent), List.nil_append]
  have missing : (resources.find? fun found => found.id = id) = none := by
    simpa using absent
  have fresh : ¬ (resources.any fun earlier => earlier.id = id) = true := by simpa using absent
  unfold addResource
  rw [said]
  dsimp only
  rw [if_neg fresh]
  constructor
  case settled =>
    intro other
    rw [List.find?_append]
    by_cases same : other = id
    · subst same
      rw [opens, missing]
      cases policy <;> simp [Policy.choice]
    · have apart : id ≠ other := Ne.symm same
      rw [liveRun_of_apart said same, reflects.settled other]
      simp [apart]
  case ordered =>
    rw [List.map_append, List.pairwise_append]
    refine ⟨reflects.ordered_concat (List.Sublist.refl _) (by simp [said]), by simp, ?_⟩
    -- The runs of all others started before the last line, on which this one starts.
    intro left member right single
    obtain ⟨assignment, inside, rfl⟩ := List.mem_map.mp member
    rw [List.map_singleton, List.mem_singleton] at single
    rw [single]
    have apart : assignment.id ≠ id := fun same => absent ⟨assignment, inside, same⟩
    obtain ⟨first, others, run⟩ :=
      List.exists_cons_of_ne_nil (reflects.live.mp ⟨assignment, inside, rfl⟩)
    have opened : first ∈ liveRun assignment.id declarations := run ▸ List.mem_cons_self
    obtain ⟨opening, declared, line⟩ := exists_declaration_of_mem_liveRun opened
    refine ⟨first, ⟨id, pin, declaration.line⟩, ?_, ?_, ?_⟩
    · rw [liveRun_of_apart said apart, run, List.head?_cons]
    · rw [opens, List.head?_cons]
    · exact line ▸ grown opening declared

theorem Reflects.clear (reflects : Reflects policy declarations resources)
    (said : declaration.statement = .clear id) :
    Reflects policy (declarations ++ [declaration])
      (addResource policy resources declaration) := by
  unfold addResource
  rw [said]
  dsimp only
  constructor
  case settled =>
    intro other
    rw [List.find?_filter]
    by_cases same : other = id
    · subst same
      rw [liveRun_clear said, policy.choice_eq_none_iff.mpr rfl, List.find?_eq_none]
      simp
    · have run : liveRun other (declarations ++ [declaration]) = liveRun other declarations :=
        liveRun_of_other (by simpa [said] using Ne.symm same) (by simp [said])
      rw [run, ← reflects.settled other]
      congr 1
      funext found
      by_cases named : found.id = other
      · simp [named, same]
      · simp [named]
  case ordered =>
    refine reflects.ordered_concat (List.filter_sublist.map _) ?_
    intro other member same
    obtain ⟨assignment, inside, rfl⟩ := List.mem_map.mp member
    rw [said, Statement.clear.injEq] at same
    simpa [same] using (List.mem_filter.mp inside).2

theorem Reflects.concat (reflects : Reflects policy declarations resources)
    (grown : ∀ earlier ∈ declarations, earlier.line < declaration.line) :
    Reflects policy (declarations ++ [declaration])
      (addResource policy resources declaration) := by
  cases said : declaration.statement with
  | assign id pin =>
      by_cases present : ∃ earlier ∈ resources, earlier.id = id
      · exact reflects.assign_again said present
      · exact reflects.assign_new grown said present
  | clear id => exact reflects.clear said
  | _ =>
      have run (id : ResourceId) :
          liveRun id (declarations ++ [declaration]) = liveRun id declarations :=
        liveRun_of_other (by simp [said]) (by simp [said])
      have same : addResource policy resources declaration = resources := by
        unfold addResource
        rw [said]
      rw [same]
      exact ⟨fun id => (reflects.settled id).trans (by rw [run]),
        reflects.ordered_concat (List.Sublist.refl _) (by simp [said])⟩

theorem reflects_foldl (rising : declarations.Pairwise fun left right => left.line < right.line) :
    Reflects policy declarations (declarations.foldl (addResource policy) []) := by
  induction declarations using List.reverseRecOn with
  | nil => exact ⟨fun id => by cases policy <;> rfl, .nil⟩
  | append_singleton declarations declaration ih =>
      obtain ⟨front, _, grown⟩ := List.pairwise_append.mp rising
      rw [List.foldl_concat]
      exact (ih front).concat fun earlier member =>
        grown earlier member declaration (List.mem_singleton_self declaration)

end Resources

/-! ## Findings -/

/-- The assignment follows another one of its resource, and nothing between the two clears it. -/
def Repeats (declarations : List Declaration) (later : Assignment) : Prop :=
  ∃ before earlier between after,
    declarations = before ++ earlier :: between ++ later.declared :: after ∧
      (∃ pin, earlier.statement = .assign later.id pin) ∧
      ∀ declaration ∈ between, declaration.statement ≠ .clear later.id

/-- The assignments of resources that are live already, given what was declared before. -/
def repeatsAfter : List Declaration → List Declaration → List Assignment
  | _, [] => []
  | before, declaration :: rest =>
    (declaration.assignment?.filter fun later => liveRun later.id before ≠ []).toList ++
      repeatsAfter (before ++ [declaration]) rest

/-- Does the finding say that a resource is assigned again? -/
def isRepetition (found : Diagnostic) : Bool :=
  found.finding = .duplicateResource && found.resource.isSome

def Policy.severity : Policy → Severity
  | .lastWins | .firstWins => .warning
  | .reject => .error

section Findings

variable {policy : Policy} {before rest : List Declaration} {later : Assignment}

theorem liveRun_ne_nil_iff {id : ResourceId} {declarations : List Declaration} :
    liveRun id declarations ≠ [] ↔
      ∃ before earlier between, declarations = before ++ earlier :: between ∧
        (∃ pin, earlier.statement = .assign id pin) ∧
        ∀ declaration ∈ between, declaration.statement ≠ .clear id := by
  constructor
  · intro live
    obtain ⟨assignment, others, run⟩ := List.exists_cons_of_ne_nil live
    obtain ⟨rfl, before, between, split, quiet⟩ :=
      mem_liveRun_iff.mp (run ▸ List.mem_cons_self : assignment ∈ liveRun id declarations)
    exact ⟨before, assignment.declared, between, split, ⟨assignment.pin, rfl⟩, quiet⟩
  · rintro ⟨before, ⟨line, statement⟩, between, split, ⟨pin, said⟩, quiet⟩
    cases said
    have live : (⟨id, pin, line⟩ : Assignment) ∈ liveRun id declarations :=
      mem_liveRun_iff.mpr ⟨rfl, before, between, split, quiet⟩
    exact List.ne_nil_of_mem live

theorem mem_repeatsAfter_iff :
    later ∈ repeatsAfter before rest ↔
      ∃ front back, rest = front ++ later.declared :: back ∧
        liveRun later.id (before ++ front) ≠ [] := by
  induction rest generalizing before with
  | nil => simp [repeatsAfter]
  | cons declaration rest ih =>
      -- The assignment is the first declaration, or it stands among the rest.
      rw [repeatsAfter, List.mem_append, Option.mem_toList, Option.filter_eq_some_iff,
        Declaration.assignment?_eq_some_iff, ih, decide_eq_true_eq]
      constructor
      · rintro (⟨rfl, live⟩ | ⟨front, back, rfl, live⟩)
        · exact ⟨[], rest, rfl, by rwa [List.append_nil]⟩
        · exact ⟨declaration :: front, back, rfl, by
            rwa [List.append_assoc, List.singleton_append] at live⟩
      · rintro ⟨front, back, split, live⟩
        cases front with
        | nil =>
            cases split
            exact .inl ⟨rfl, by rwa [List.append_nil] at live⟩
        | cons first front =>
            cases split
            exact .inr ⟨front, back, rfl, by rwa [List.append_assoc, List.singleton_append]⟩

theorem mem_repeats_iff {declarations : List Declaration} :
    later ∈ repeatsAfter [] declarations ↔ Repeats declarations later := by
  rw [mem_repeatsAfter_iff]
  constructor
  · rintro ⟨front, after, rfl, live⟩
    obtain ⟨before, earlier, between, rfl, assigns, quiet⟩ := liveRun_ne_nil_iff.mp live
    exact ⟨before, earlier, between, after, rfl, assigns, quiet⟩
  · rintro ⟨before, earlier, between, after, rfl, assigns, quiet⟩
    exact ⟨_, after, rfl, liveRun_ne_nil_iff.mpr ⟨before, earlier, between, rfl, assigns, quiet⟩⟩

theorem repeatsAfter_sublist (before rest : List Declaration) :
    (repeatsAfter before rest).Sublist (rest.filterMap Declaration.assignment?) := by
  induction rest generalizing before with
  | nil => exact .slnil
  | cons declaration rest ih =>
      rw [repeatsAfter, List.filterMap_cons]
      cases declaration.assignment? with
      | none => exact ih _
      | some assignment =>
          rw [Option.filter_some]
          split
          · exact (ih _).cons_cons assignment
          · exact (ih _).cons assignment

theorem rising_repeatsAfter (rising : rest.Pairwise fun left right => left.line < right.line) :
    (repeatsAfter before rest).Pairwise fun left right => left.line < right.line := by
  refine List.Pairwise.sublist (repeatsAfter_sublist before rest) ?_
  rw [List.pairwise_filterMap]
  refine rising.imp ?_
  intro left right earlier first opens second follows
  rw [Declaration.assignment?_eq_some_iff] at opens follows
  cases opens
  cases follows
  exact earlier

/-- One assignment of a live resource gives one finding on it; nothing else gives any. -/
theorem repetition?_eq {declaration : Declaration} {resources : List Assignment}
    {timers : List Timer} (reflects : Reflects policy before resources) :
    ((repetition? policy resources timers declaration).toList.filter
        isRepetition).map (fun found =>
          (found.severity, found.resource, found.pin, found.line)) =
      (declaration.assignment?.filter fun later => liveRun later.id before ≠ []).toList.map
        fun later => (policy.severity, some later.id, some later.pin, some later.line) := by
  cases said : declaration.statement with
  | assign id pin =>
      rw [repetition?, said, Declaration.assignment?, said]
      dsimp only
      rw [reflects.settled, Option.filter_some]
      cases chosen : policy.choice (liveRun id before) with
      | none =>
          rw [policy.choice_eq_none_iff] at chosen
          simp [chosen]
      | some earlier =>
          have live : liveRun id before ≠ [] := List.ne_nil_of_mem (Policy.mem_of_choice chosen)
          cases policy <;>
            simp [live, repeatedResource, isRepetition, Policy.severity]
  | timer pin function =>
      rw [repetition?, said, Declaration.assignment?, said]
      dsimp only
      cases timers.find? fun earlier => earlier.pin = pin with
      | none => rfl
      | some earlier => rfl
  | _ => simp [repetition?, Declaration.assignment?, said]

theorem repetitions_eq (policy : Policy) (before rest : List Declaration)
    (rising : (before ++ rest).Pairwise fun left right => left.line < right.line) :
    ((repetitions policy (before.foldl (addResource policy) []) (before.foldl addTimer [])
        rest).filter isRepetition).map (fun found =>
          (found.severity, found.resource, found.pin, found.line)) =
      (repeatsAfter before rest).map fun later =>
        (policy.severity, some later.id, some later.pin, some later.line) := by
  induction rest generalizing before with
  | nil => rfl
  | cons declaration rest ih =>
      have front : before.Pairwise fun left right => left.line < right.line :=
        (List.pairwise_append.mp rising).1
      have further := ih (before ++ [declaration]) (by simpa using rising)
      rw [List.foldl_concat, List.foldl_concat] at further
      rw [repetitions, repeatsAfter, List.filter_append, List.map_append, List.map_append,
        repetition?_eq (reflects_foldl front), further]

end Findings

/-! ## Texts -/

/-- The resources read from declarations, and the findings on those assigned again. -/
structure Reduced (policy : Policy) (declarations : List Declaration) (parsed : Parsed) :
    Prop where
  present : ∀ id, (∃ assignment ∈ parsed.board.resources, assignment.id = id) ↔
    liveRun id declarations ≠ []
  settled : ∀ assignment ∈ parsed.board.resources,
    policy.choice (liveRun assignment.id declarations) = some assignment
  ordered : (parsed.board.resources.map (·.id)).Pairwise (Precedes declarations)
  repeated : ∃ repeats : List Assignment,
    (repeats.Pairwise fun left right => left.line < right.line) ∧
      (∀ later, later ∈ repeats ↔ Repeats declarations later) ∧
      (parsed.diagnostics.filter isRepetition).map (fun found =>
          (found.severity, found.resource, found.pin, found.line)) =
        repeats.map fun later =>
          (policy.severity, some later.id, some later.pin, some later.line)

theorem rising_declarations (text : String) :
    (declarations text).Pairwise fun left right => left.line < right.line := by
  have numbers : (numberedLines text).Pairwise fun left right => left.1 < right.1 := by
    rw [← List.pairwise_map (f := Prod.fst), numberedLines, List.map_map]
    have counted := List.pairwise_lt_range' (s := 1) (n := (Text.lines text.toList).length)
    rwa [← List.zipIdx_map_snd] at counted
  unfold declarations
  rw [List.pairwise_filterMap]
  refine numbers.imp ?_
  intro left right earlier first opens second follows
  obtain ⟨_, _, rfl⟩ := Option.map_eq_some_iff.mp opens
  obtain ⟨_, _, rfl⟩ := Option.map_eq_some_iff.mp follows
  exact earlier

theorem isRepetition_lineIssues (text : String) :
    (lineIssues text).filter isRepetition = [] := by
  rw [List.filter_eq_nil_iff]
  intro found member
  obtain ⟨number, line, _, issue, _, rfl⟩ := exists_line_of_mem_lineIssues member
  simp [isRepetition, Issue.diagnostic]

/-- What a text assigns is, resource by resource, what the policy chooses among the assignments
after the last clearance; each assignment of a resource that is assigned already is reported. -/
theorem reduced_parse (policy : Policy) (text : String) :
    Reduced policy (declarations text) (parse policy text) := by
  have rising := rising_declarations text
  have reflects : Reflects policy (declarations text) (parse policy text).board.resources :=
    reflects_foldl rising
  constructor
  case present => exact fun id => reflects.live
  case settled =>
    intro assignment member
    rw [← reflects.settled]
    exact (Grouping.find?_key_eq_some_iff (parse_unambiguous policy text).resources).mpr
      ⟨member, rfl⟩
  case ordered => exact reflects.ordered
  case repeated =>
    refine ⟨repeatsAfter [] (declarations text), rising_repeatsAfter rising,
      fun later => mem_repeats_iff, ?_⟩
    have found := repetitions_eq policy [] (declarations text) rising
    unfold parse
    dsimp only
    rw [List.filter_append, isRepetition_lineIssues, List.nil_append]
    exact found

end Pinout.Board
