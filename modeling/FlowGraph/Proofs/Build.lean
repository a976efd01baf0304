import FlowGraph.Build
import FlowGraph.Proofs.Leaders

/-!
The complete outcome of a build. A list of instructions is refused for the first breach of the
decoder's contract, else for the first branch or jump that leads outside, else for being empty,
else for not ending in a return or throw. Every other list gives a frozen graph that passes
validation, and whether the build itself validates makes no difference. In particular no look-up
on the way fails, and no partition by leaders is ever found wanting.
-/
namespace FlowGraph

def KeepsContract (instructions : List Instruction) : Prop :=
  ∀ (p : Nat) (i : Instruction), instructions[p]? = some i → ∀ breach, ¬ Breached p i breach

def LeadsOutside (length : Nat) (i : Instruction) (target : Int) : Prop :=
  i.kind.isJump = true ∧ i.target = some target ∧ ¬ (0 ≤ target ∧ target < length)

/-- What building a list of instructions comes to, case by case in the order they are decided. -/
inductive Outcome (instructions : List Instruction) : Except Fault Graph → Prop
  | breach {p : Nat} {i : Instruction} {breach : Breach} (hi : instructions[p]? = some i)
      (hbreach : Breached p i breach)
      (hfirst : ∀ q j, q < p → instructions[q]? = some j → ∀ other, ¬ Breached q j other) :
      Outcome instructions (.error (.failure (.contract p breach)))
  | target (hkeeps : KeepsContract instructions) {p : Nat} {i : Instruction} {t : Int}
      (hi : instructions[p]? = some i) (hstray : LeadsOutside instructions.length i t)
      (hfirst : ∀ q j, q < p → instructions[q]? = some j →
        ∀ u, ¬ LeadsOutside instructions.length j u) :
      Outcome instructions (.error (.failure (.malformedTarget i.index t instructions.length)))
  | empty (hnil : instructions = []) : Outcome instructions (.error (.failure .empty))
  | terminator (hkeeps : KeepsContract instructions) (hinside : TargetsInside instructions)
      {last : Instruction} (hlast : instructions.getLast? = some last)
      (hstays : ¬ (last.kind = .ret ∨ last.kind = .throw)) :
      Outcome instructions (.error (.failure (.missingTerminator last.index last.kind)))
  | graph (hkeeps : KeepsContract instructions) (hinside : TargetsInside instructions)
      (hend : EndsInExit instructions) {g : Graph}
      (hstream : g.stream.instructions = instructions)
      (hfrozen : g.frozen = true ∧ ∀ b ∈ g.blocks, b.frozen = true)
      (hvalid : ∃ report, g.validate = .ok report ∧ report.violations = []) :
      Outcome instructions (.ok g)

theorem keepsContract_iff {instructions : List Instruction} :
    KeepsContract instructions ↔ firstBreach 0 instructions = none := by
  rw [firstBreach_eq_none_iff]
  have hone : ∀ (p : Nat) (i : Instruction),
      (∀ breach, ¬ Breached p i breach) ↔ breachAt (0 + p) i = none := by
    intro p i
    rw [Nat.zero_add, Option.eq_none_iff_forall_ne_some]
    exact forall_congr' fun breach => not_congr breachAt_eq_some_iff.symm
  simp only [KeepsContract, hone]

theorem Stream.keepsContract (s : Stream) : KeepsContract s.instructions :=
  keepsContract_iff.mpr s.contract

theorem Stream.ofList_of_keeps {instructions : List Instruction}
    (h : KeepsContract instructions) :
    ∃ s : Stream, Stream.ofList instructions = .ok s ∧ s.instructions = instructions := by
  have hnone := keepsContract_iff.mp h
  refine ⟨⟨instructions, hnone⟩, ?_, rfl⟩
  unfold Stream.ofList
  split
  · rfl
  · rename_i hsome
    rw [hnone] at hsome
    cases hsome

theorem Stream.ofList_of_firstBreach {instructions : List Instruction} {p : Nat} {breach : Breach}
    (h : firstBreach 0 instructions = some (p, breach)) :
    Stream.ofList instructions = .error (.contract p breach) := by
  unfold Stream.ofList
  split
  · rename_i hnone
    rw [h] at hnone
    cases hnone
  · rename_i q other hsome
    rw [h] at hsome
    obtain ⟨rfl, rfl⟩ := Prod.mk.inj (Option.some.inj hsome)
    rfl

/-- A list that breaks the contract is refused for its first breach. -/
theorem Stream.ofList_of_breach {instructions : List Instruction}
    (h : ¬ KeepsContract instructions) :
    ∃ (p : Nat) (i : Instruction) (breach : Breach),
      Stream.ofList instructions = .error (.contract p breach) ∧ instructions[p]? = some i ∧
        Breached p i breach ∧
        ∀ q j, q < p → instructions[q]? = some j → ∀ other, ¬ Breached q j other := by
  cases hfirst : firstBreach 0 instructions with
  | none => exact absurd (keepsContract_iff.mpr hfirst) h
  | some found =>
    obtain ⟨p, breach⟩ := found
    obtain ⟨k, i, hp, hk, hbreach, hbefore⟩ := firstBreach_eq_some hfirst
    obtain rfl : p = k := by omega
    refine ⟨p, i, breach, Stream.ofList_of_firstBreach hfirst, hk,
      breachAt_eq_some_iff.mp hbreach, ?_⟩
    intro q j hq hj other hother
    have hnone := hbefore q j hq hj
    rw [Nat.zero_add, breachAt_eq_some_iff.mpr hother] at hnone
    cases hnone

namespace Stream

variable {s : Stream}

/-- The stray jump that is named is the first one. -/
theorem strayJump?_eq_some {i : Instruction} (h : s.strayJump? = some i) :
    ∃ p : Nat, s.instructions[p]? = some i ∧ LeadsOutside s.instructions.length i i.goal ∧
      ∀ q j, q < p → s.instructions[q]? = some j →
        ∀ u, ¬ LeadsOutside s.instructions.length j u := by
  unfold strayJump? jumps at h
  rw [List.find?_filter] at h
  obtain ⟨hstray, p, hp, hget, hbefore⟩ := List.find?_eq_some_iff_getElem.mp h
  have hi : s.instructions[p]? = some i := by rw [List.getElem?_eq_getElem hp, hget]
  obtain ⟨hjump, hout⟩ : i.kind.isJump = true ∧ s.inRange i.goal = false := by simpa using hstray
  refine ⟨p, hi, ⟨hjump, target_eq_goal hi hjump, ?_⟩, ?_⟩
  · intro hrange
    rw [inRange_iff.mpr hrange] at hout
    cases hout
  · rintro q j hq hj u ⟨hjump', htarget, hout'⟩
    obtain ⟨hlt, rfl⟩ := List.getElem?_eq_some_iff.mp hj
    have hfine := hbefore q hq
    have hgoal : (s.instructions[q]).goal = u := by simp [Instruction.goal, htarget]
    have hrange : s.inRange u = true := by simpa [hjump', hgoal] using hfine
    exact hout' (inRange_iff.mp hrange)

theorem targetsInside_of_none (h : s.strayJump? = none) : TargetsInside s.instructions := by
  intro i hi hjump
  obtain ⟨p, hp⟩ := List.mem_iff_getElem?.mp hi
  have hfine := List.find?_eq_none.mp h i (List.mem_filter.mpr ⟨hi, hjump⟩)
  have hrange : s.inRange i.goal = true := by simpa using hfine
  exact ⟨i.goal, target_eq_goal hp hjump, inRange_iff.mp hrange⟩

end Stream

def Stage.Yields (stage : Stage) (g : Graph) : Prop := stage.outcome = .ok () ∧ stage.graph = g

namespace Stage

variable {stage : Stage} {next : Graph → Stage} {g after : Graph}

theorem Yields.andThen (h : stage.Yields g) (hnext : (next g).Yields after) :
    (stage.andThen next).Yields after := by
  obtain ⟨hok, rfl⟩ := h
  unfold Stage.andThen
  rw [hok]
  exact hnext

theorem andThen_outcome_of_error {fault : Fault} (h : stage.outcome = .error fault) :
    (stage.andThen next).outcome = .error fault := by
  unfold Stage.andThen
  rw [h]
  exact h

end Stage

namespace Graph

variable {g : Graph}

theorem WellFormed.sealed (hw : g.WellFormed) : g.sealed.WellFormed := by
  have hlength : g.sealed.blocks.length = g.blocks.length := List.length_map _
  have hold : ∀ b ∈ g.sealed.blocks, ∃ old ∈ g.blocks, b = { old with frozen := true } := by
    intro b hb
    obtain ⟨old, hmem, rfl⟩ := List.mem_map.mp hb
    exact ⟨old, hmem, rfl⟩
  constructor
  · exact sealed_tiling hw.tiling
  · intro b hb
    obtain ⟨old, hmem, rfl⟩ := hold b hb
    exact hw.jumps_last old hmem
  · rw [hlength]
    exact hw.endpoints
  · intro b hb
    obtain ⟨old, hmem, rfl⟩ := hold b hb
    exact hw.outgoing old hmem
  · intro b hb
    obtain ⟨old, hmem, rfl⟩ := hold b hb
    exact hw.incoming old hmem
  · intro b hb
    obtain ⟨old, hmem, rfl⟩ := hold b hb
    exact hw.exits old hmem

theorem terminatorStage_yields (hend : EndsInExit g.stream.instructions) :
    g.terminatorStage.Yields g := by
  obtain ⟨last, hlast, hkind⟩ := hend
  have hcheck : g.stream.checkTerminator = .ok () := by
    simp [Stream.checkTerminator, hlast, isTerminal_iff.mpr hkind]
  exact ⟨congrArg (Except.mapError Fault.failure) hcheck, rfl⟩

theorem Laid.connectStage_yields (h : g.Laid) (hmet : ∀ b ∈ g.blocks, g.Met b) :
    g.connectStage.Yields g.wired := by
  unfold connectStage
  rw [h.connect_eq_wired hmet]
  exact ⟨rfl, rfl⟩

theorem WellFormed.validationStage_yields (hw : g.WellFormed) (hn : g.Numbered) (hu : g.UpToDate)
    (options : BuildOptions) : (g.validationStage options).Yields g := by
  obtain ⟨report, hreport, hnone⟩ := hw.validate_ok hn hu
  have hcheck : report.check = .ok () := by simp [Report.check, Report.passed, hnone]
  unfold validationStage
  split
  · rw [hreport]
    exact ⟨hcheck, rfl⟩
  · exact ⟨rfl, rfl⟩

theorem freezeStage_yields (h : g.Open) (options : BuildOptions) :
    (g.freezeStage options).Yields g.sealed := by
  unfold freezeStage
  rw [freeze_eq_sealed h]
  exact ⟨rfl, rfl⟩

/-- A partition whose demands are met and whose jumps end blocks goes through every stage. -/
theorem Laid.complete_yields (h : g.Laid) (hbare : g.Bare)
    (hend : EndsInExit g.stream.instructions) (hmet : ∀ b ∈ g.blocks, g.Met b)
    (hjumps : g.JumpsLast) (method : Option String) (validate : Bool) :
    (g.complete { method, validate }).Yields g.wired.sealed := by
  have hwired : g.wired.Laid := h.grow _ _
  have hwell := h.wired_wellFormed hbare hmet hjumps
  unfold complete
  apply Stage.Yields.andThen (g := g.wired) _ (freezeStage_yields hwired.unfrozen _)
  apply Stage.Yields.andThen _
    (hwell.validationStage_yields hbare.wired_numbered hwired.upToDate _)
  apply Stage.Yields.andThen (g := g.wired) _ ⟨rfl, rfl⟩
  exact (terminatorStage_yields hend).andThen (h.connectStage_yields hmet)

theorem complete_of_terminator {last : Instruction}
    (hlast : g.stream.instructions.getLast? = some last)
    (hstays : ¬ (last.kind = .ret ∨ last.kind = .throw)) (options : BuildOptions) :
    (g.complete options).outcome =
      .error (.failure (.missingTerminator last.index last.kind)) := by
  have hterminal : ¬ last.kind.isTerminal = true := fun h => hstays (isTerminal_iff.mp h)
  have hcheck : g.stream.checkTerminator = .error (.missingTerminator last.index last.kind) := by
    simp [Stream.checkTerminator, hlast, hterminal]
  unfold complete
  iterate 4 apply Stage.andThen_outcome_of_error
  exact congrArg (Except.mapError Fault.failure) hcheck

end Graph

namespace Stream

variable {s : Stream}

def graphOf (s : Stream) (leaders : List Int) : Graph := (s.layout leaders).wired.sealed

theorem layout_sound (h : TargetsInside s.instructions) (hend : EndsInExit s.instructions)
    {leaders : List Int} (hleaders : s.leaders = .ok leaders) :
    (∀ b ∈ (s.layout leaders).blocks, (s.layout leaders).Met b) ∧ (s.layout leaders).JumpsLast :=
  (layout_sound_iff h hend hleaders leaders).mpr fun _ hi _ => hi

theorem graphOf_wellFormed (h : TargetsInside s.instructions) (hend : EndsInExit s.instructions)
    {leaders : List Int} (hleaders : s.leaders = .ok leaders) :
    (s.graphOf leaders).WellFormed := by
  obtain ⟨hmet, hjumps⟩ := layout_sound h hend hleaders
  have hlaid := Graph.laid_cut s leaders (length_ne_zero hend)
  exact (hlaid.wired_wellFormed (Graph.layout_bare s leaders) hmet hjumps).sealed

theorem graphOf_numbered (s : Stream) (leaders : List Int) : (s.graphOf leaders).Numbered :=
  (Graph.layout_bare s leaders).wired_numbered

theorem graphOf_frozen (s : Stream) (leaders : List Int) :
    (s.graphOf leaders).frozen = true ∧ ∀ b ∈ (s.graphOf leaders).blocks, b.frozen = true := by
  refine ⟨rfl, ?_⟩
  intro b hb
  obtain ⟨old, _, rfl⟩ := List.mem_map.mp hb
  rfl

theorem graphOf_upToDate (s : Stream) (leaders : List Int) : (s.graphOf leaders).UpToDate :=
  Graph.sealed_upToDate (Graph.grow_upToDate _ _ (Graph.ofBlocks_upToDate s _))

/-- A stream that ends in a return or throw and whose targets lie inside is built. -/
theorem build_of_exit (h : TargetsInside s.instructions) (hend : EndsInExit s.instructions)
    {leaders : List Int} (hleaders : s.leaders = .ok leaders) (method : Option String)
    (validate : Bool) : (s.build { method, validate }).outcome = .ok (s.graphOf leaders) := by
  obtain ⟨hmet, hjumps⟩ := layout_sound h hend hleaders
  have hs := length_ne_zero hend
  obtain ⟨hok, hgraph⟩ :=
    (Graph.laid_cut s leaders hs).complete_yields (Graph.layout_bare s leaders)
    hend hmet hjumps method validate
  simp only [build, hleaders, partition_eq s leaders hs, hok, hgraph]
  rfl

theorem build_of_terminator (h : TargetsInside s.instructions) {last : Instruction}
    (hlast : s.instructions.getLast? = some last)
    (hstays : ¬ (last.kind = .ret ∨ last.kind = .throw)) (options : BuildOptions) :
    (s.build options).outcome =
      .error (.failure (.missingTerminator last.index last.kind)) := by
  have hs : s.length ≠ 0 := by
    intro hzero
    have hnil : s.instructions = [] := List.length_eq_zero_iff.mp hzero
    simp [hnil] at hlast
  have hfails := Graph.complete_of_terminator (g := s.layout (ascendingSet
    (0 :: s.jumps.flatMap s.leadersOfJump))) hlast hstays options
  simp only [build, leaders_eq hs h, partition_eq s _ hs]
  exact congrArg (Except.map _) hfails

theorem leaders_of_stray {i : Instruction} (h : s.strayJump? = some i) :
    s.leaders = .error (.malformedTarget i.index i.goal s.length) := by
  have hs : s.length ≠ 0 := by
    intro hzero
    have hnil : s.instructions = [] := List.length_eq_zero_iff.mp hzero
    simp [strayJump?, jumps, hnil] at h
  simp [leaders, hs, h]

theorem build_of_stray {i : Instruction} (h : s.strayJump? = some i) (options : BuildOptions) :
    (s.build options).outcome = .error (.failure (.malformedTarget i.index i.goal s.length)) := by
  simp [build, leaders_of_stray h]

theorem build_of_nil (h : s.instructions = []) (options : BuildOptions) :
    (s.build options).outcome = .error (.failure .empty) := by
  have hs : s.length = 0 := by simp [length, h]
  simp [build, leaders, partition, hs]

/-- What becomes of a stream does not depend on whether the build validates. -/
theorem build_outcome (s : Stream) : ∃ outcome, Outcome s.instructions outcome ∧
    ∀ method validate, (s.build { method, validate }).outcome = outcome := by
  have hkeeps := s.keepsContract
  cases hstray : s.strayJump? with
  | some i =>
    obtain ⟨p, hp, hout, hfirst⟩ := strayJump?_eq_some hstray
    exact ⟨_, .target hkeeps hp hout hfirst, fun _ _ => build_of_stray hstray _⟩
  | none =>
    have hinside := targetsInside_of_none hstray
    cases hlast : s.instructions.getLast? with
    | none =>
      have hnil := List.getLast?_eq_none_iff.mp hlast
      exact ⟨_, .empty hnil, fun _ _ => build_of_nil hnil _⟩
    | some last =>
      by_cases hexit : last.kind = .ret ∨ last.kind = .throw
      · have hend : EndsInExit s.instructions := ⟨last, hlast, hexit⟩
        have hleaders := leaders_eq (length_ne_zero hend) hinside
        have hvalid := (graphOf_wellFormed hinside hend hleaders).validate_ok
          (s.graphOf_numbered _) (s.graphOf_upToDate _)
        exact ⟨_, .graph hkeeps hinside hend rfl (s.graphOf_frozen _) hvalid,
          build_of_exit hinside hend hleaders⟩
      · exact ⟨_, .terminator hkeeps hinside hlast hexit,
          fun _ _ => build_of_terminator hinside hlast hexit _⟩

end Stream

theorem Outcome.name_of_error {instructions : List Instruction} {fault : Fault}
    (h : Outcome instructions (.error fault)) : ∃ reason, fault = .failure reason ∧
      reason.name ∈ ["DecoderContractViolation", "MalformedTarget", "EmptyStream",
        "MissingTerminator"] := by
  cases h with
  | breach _ _ _ => exact ⟨_, rfl, by simp [Failure.name]⟩
  | target _ _ _ _ => exact ⟨_, rfl, by simp [Failure.name]⟩
  | empty _ => exact ⟨_, rfl, by simp [Failure.name, Failure.empty]⟩
  | terminator _ _ _ _ => exact ⟨_, rfl, by simp [Failure.name]⟩

theorem exists_outcome (instructions : List Instruction) :
    ∃ outcome, Outcome instructions outcome ∧
    ∀ method validate, buildGraph instructions { method, validate } = outcome := by
  by_cases hkeeps : KeepsContract instructions
  · obtain ⟨s, hs, rfl⟩ := Stream.ofList_of_keeps hkeeps
    obtain ⟨outcome, houtcome, hbuild⟩ := s.build_outcome
    exact ⟨outcome, houtcome, by simpa [buildGraph, hs] using hbuild⟩
  · obtain ⟨p, i, breach, hs, hi, hbreach, hfirst⟩ := Stream.ofList_of_breach hkeeps
    exact ⟨_, .breach hi hbreach hfirst, by simp [buildGraph, hs]⟩

/-- Every list of instructions has one outcome, the same with validation and without it, and a
list that is refused is refused for one of four reasons. -/
theorem buildGraph_outcome (instructions : List Instruction) :
    (∃ outcome, Outcome instructions outcome ∧
      ∀ method validate, buildGraph instructions { method, validate } = outcome) ∧
    ∀ method validate fault, buildGraph instructions { method, validate } = .error fault →
      ∃ reason, fault = .failure reason ∧ reason.name ∈
        ["DecoderContractViolation", "MalformedTarget", "EmptyStream", "MissingTerminator"] := by
  obtain ⟨outcome, houtcome, hbuild⟩ := exists_outcome instructions
  refine ⟨⟨outcome, houtcome, hbuild⟩, ?_⟩
  intro method validate fault hfault
  rw [hbuild] at hfault
  rw [hfault] at houtcome
  exact houtcome.name_of_error

/-- A graph that is built is that of the stream cut at its leaders. -/
theorem eq_graphOf_of_buildGraph {instructions : List Instruction} {method : Option String}
    {validate : Bool} {g : Graph} (h : buildGraph instructions { method, validate } = .ok g) :
    ∃ (s : Stream) (leaders : List Int), s.instructions = instructions ∧
      TargetsInside instructions ∧
      EndsInExit instructions ∧ s.leaders = .ok leaders ∧ g = s.graphOf leaders := by
  obtain ⟨outcome, houtcome, hbuild⟩ := exists_outcome instructions
  rw [← hbuild method validate, h] at houtcome
  cases houtcome with
  | graph hkeeps hinside hend _ _ _ =>
    obtain ⟨s, hs, rfl⟩ := Stream.ofList_of_keeps hkeeps
    have hleaders := Stream.leaders_eq (Stream.length_ne_zero hend) hinside
    have hgraph := Stream.build_of_exit hinside hend hleaders method validate
    simp only [buildGraph, hs, hgraph] at h
    exact ⟨s, _, rfl, hinside, hend, hleaders, (Except.ok.inj h).symm⟩

end FlowGraph
