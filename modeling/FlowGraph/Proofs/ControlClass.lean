import FlowGraph.Proofs.DeadCode
import Mathlib.Data.List.Forall2

/-!
A graph shows nothing of its instructions but their control class. Two lists that agree on
indices, targets and control classes run through a build side by side: they break the contract at
the same position or nowhere, have the same stray jump and the same leaders, and each stage that
reads an instruction reads alike ones from both. So both are refused for the same sort of reason
at the same index, or both give one and the same drawing of blocks and edges. Only the exit tells
a return from a throw.
-/
namespace FlowGraph

structure Kind.SameClass (k l : Kind) : Prop where
  branch : k = .conditionalJump ↔ l = .conditionalJump
  jump : k = .unconditionalJump ↔ l = .unconditionalJump
  leave : (k = .ret ∨ k = .throw) ↔ (l = .ret ∨ l = .throw)

theorem Kind.sameClass_iff {k l : Kind} : k.SameClass l ↔ k.control = l.control := by
  constructor
  · rintro ⟨hbranch, hjump, hleave⟩
    revert hbranch hjump hleave
    cases k <;> cases l <;> decide
  · intro h
    constructor <;> revert h <;> cases k <;> cases l <;> decide

structure Instruction.Alike (x y : Instruction) : Prop where
  index : x.index.toInt? = y.index.toInt?
  target : x.target = y.target
  kinds : x.kind.SameClass y.kind

namespace Instruction.Alike

variable {x y : Instruction}

theorem isJump_eq (h : x.Alike y) : x.kind.isJump = y.kind.isJump := by
  simp only [isJump_eq_control, Kind.sameClass_iff.mp h.kinds]

theorem isTerminal_eq (h : x.Alike y) : x.kind.isTerminal = y.kind.isTerminal := by
  simp only [isTerminal_eq_control, Kind.sameClass_iff.mp h.kinds]

theorem toInt_eq (h : x.Alike y) : x.index.toInt = y.index.toInt := congrArg (·.getD (-1)) h.index

theorem goal_eq (h : x.Alike y) : x.goal = y.goal := congrArg (·.getD (-1)) h.target

theorem demands_eq (h : x.Alike y) (stop : Int) : x.demands stop = y.demands stop := by
  simp only [demands, Kind.sameClass_iff.mp h.kinds, h.goal_eq, h.toInt_eq]

theorem breachAt_eq_none_iff (h : x.Alike y) (p : Nat) :
    breachAt p x = none ↔ breachAt p y = none := by
  rw [FlowGraph.breachAt_eq_none_iff, FlowGraph.breachAt_eq_none_iff, h.index, h.target,
    h.isJump_eq]

end Instruction.Alike

section Related

variable {α : Type} {R : α → α → Prop} {xs ys : List α}

theorem rel_cases {a b : Option α} (h : Option.Rel R a b) :
    (a = none ∧ b = none) ∨ ∃ x y, a = some x ∧ b = some y ∧ R x y := by
  cases h with
  | none => exact .inl ⟨rfl, rfl⟩
  | some hxy => exact .inr ⟨_, _, rfl, rfl, hxy⟩

theorem rel_getElem? (h : List.Forall₂ R xs ys) (p : Nat) : Option.Rel R xs[p]? ys[p]? := by
  induction h generalizing p with
  | nil => exact .none
  | cons hxy _ ih =>
    cases p with
    | zero => exact .some hxy
    | succ p => exact ih p

theorem rel_getLast? (h : List.Forall₂ R xs ys) : Option.Rel R xs.getLast? ys.getLast? := by
  rw [List.getLast?_eq_getElem?, List.getLast?_eq_getElem?, h.length_eq]
  exact rel_getElem? h _

theorem rel_find? {p : α → Bool} (hp : ∀ x y, R x y → p x = p y) (h : List.Forall₂ R xs ys) :
    Option.Rel R (xs.find? p) (ys.find? p) := by
  induction h with
  | nil => exact .none
  | @cons x y _ _ hxy _ ih =>
    rw [List.find?_cons, List.find?_cons, hp x y hxy]
    cases p y with
    | true => exact .some hxy
    | false => exact ih

theorem flatMap_eq_of_rel {β : Type} {f : α → List β} (hf : ∀ x y, R x y → f x = f y)
    (h : List.Forall₂ R xs ys) : xs.flatMap f = ys.flatMap f := by
  induction h with
  | nil => rfl
  | @cons x y _ _ hxy _ ih => rw [List.flatMap_cons, List.flatMap_cons, hf x y hxy, ih]

theorem rel_get? (h : List.Forall₂ R xs ys) (i : Int) :
    Option.Rel R (Position.get? xs i) (Position.get? ys i) := by
  unfold Position.get?
  rw [h.length_eq]
  cases Position.resolve? ys.length i with
  | none => exact .none
  | some p => exact rel_getElem? h p

end Related

/-- Alike lists break the contract at the same position, if they break it at all. -/
theorem firstBreach_alike {xs ys : List Instruction} (h : List.Forall₂ Instruction.Alike xs ys)
    (p : Nat) : (firstBreach p xs).map Prod.fst = (firstBreach p ys).map Prod.fst := by
  induction h generalizing p with
  | nil => rfl
  | @cons x y _ _ hxy _ ih =>
    unfold firstBreach
    cases hx : breachAt p x with
    | none =>
      rw [(hxy.breachAt_eq_none_iff p).mp hx]
      exact ih (p + 1)
    | some breach =>
      cases hy : breachAt p y with
      | none =>
        rw [(hxy.breachAt_eq_none_iff p).mpr hy] at hx
        cases hx
      | some other => rfl

namespace Stream

def Alike (s t : Stream) : Prop := List.Forall₂ Instruction.Alike s.instructions t.instructions

variable {s t : Stream}

namespace Alike

theorem length_eq (h : s.Alike t) : s.length = t.length := List.Forall₂.length_eq h

theorem inRange_eq (h : s.Alike t) : s.inRange = t.inRange := by
  funext i
  simp only [inRange, h.length_eq]

theorem jumps (h : s.Alike t) : List.Forall₂ Instruction.Alike s.jumps t.jumps :=
  List.rel_filter (fun _ _ hxy => by simp only [hxy.isJump_eq]) h

theorem strayJump? (h : s.Alike t) : Option.Rel Instruction.Alike s.strayJump? t.strayJump? := by
  unfold Stream.strayJump?
  rw [h.inRange_eq]
  exact rel_find? (fun x y hxy => by simp only [hxy.goal_eq]) h.jumps

theorem leadersOfJump_eq (h : s.Alike t) :
    s.jumps.flatMap s.leadersOfJump = t.jumps.flatMap t.leadersOfJump := by
  have hsame : s.leadersOfJump = t.leadersOfJump := by
    funext i
    simp only [leadersOfJump, h.length_eq]
  rw [hsame]
  exact flatMap_eq_of_rel
    (fun x y hxy => by simp only [leadersOfJump, hxy.goal_eq, hxy.toInt_eq]) h.jumps

theorem get? (h : s.Alike t) (i : Int) : Option.Rel Instruction.Alike (s.get? i) (t.get? i) :=
  rel_get? h i

end Alike

end Stream

namespace Graph

/-- Two graphs that agree in everything except their streams. -/
structure SameDrawing (g k : Graph) : Prop where
  blocks : g.blocks = k.blocks
  edges : g.edges = k.edges
  table : g.table = k.table
  frozen : g.frozen = k.frozen

namespace SameDrawing

variable {g k : Graph}

theorem startingAt?_eq (h : g.SameDrawing k) (i : Int) : g.startingAt? i = k.startingAt? i := by
  simp only [startingAt?, h.table]

theorem successors_eq (h : g.SameDrawing k) (b : Int) : g.successors b = k.successors b := by
  have hblock : g.block = k.block := by
    funext c
    simp only [block, h.blocks]
  have hedge : g.edge = k.edge := by
    funext e
    simp only [edge, h.edges]
  simp only [successors, edgesOf, hblock, hedge]

theorem explore_eq (h : g.SameDrawing k) (fuel : Nat) (queue seen : List Int) :
    g.explore fuel queue seen = k.explore fuel queue seen := by
  induction fuel generalizing queue seen with
  | zero => rfl
  | succ fuel ih =>
    cases queue with
    | nil => rfl
    | cons b queue => simp only [explore, h.successors_eq, ih]

theorem reachable_eq (h : g.SameDrawing k) : g.reachable = k.reachable := by
  simp only [reachable, entry, h.startingAt?_eq, h.edges, h.explore_eq]

theorem unreachable_eq (h : g.SameDrawing k) : g.unreachable = k.unreachable := by
  simp only [unreachable, h.reachable_eq, h.blocks]

theorem exits_eq (h : g.SameDrawing k) : g.exits = k.exits := by simp only [exits, h.blocks]

theorem sealed (h : g.SameDrawing k) : g.sealed.SameDrawing k.sealed :=
  ⟨congrArg (List.map _) h.blocks, h.edges, h.table, rfl⟩

theorem grow (h : g.SameDrawing k) (links : List Link) (marks : List Int) :
    (g.grow links marks).SameDrawing (k.grow links marks) := by
  constructor
  · simp only [Graph.grow, h.blocks, h.edges]
  · simp only [Graph.grow, h.edges]
  · exact h.table
  · exact h.frozen

/-- Blocks demand the same of alike streams, so connecting them makes the same edges and marks. -/
theorem wired (h : g.SameDrawing k) (hstreams : g.stream.Alike k.stream) :
    g.wired.SameDrawing k.wired := by
  have hlinks : g.linksOf = k.linksOf := by
    funext b
    have hdemands : g.demandsOf b = k.demandsOf b := by
      rcases rel_cases (hstreams.get? b.lastIndex) with ⟨hg, hk⟩ | ⟨x, y, hg, hk, hxy⟩
      · simp only [demandsOf, hg, hk]
      · simp only [demandsOf, hg, hk, hxy.demands_eq]
    simp only [linksOf, hdemands, h.startingAt?_eq]
  have hmarks : g.marksOf = k.marksOf := by
    funext b
    rcases rel_cases (hstreams.get? b.lastIndex) with ⟨hg, hk⟩ | ⟨x, y, hg, hk, hxy⟩
    · simp only [marksOf, hg, hk]
    · simp only [marksOf, hg, hk, hxy.isTerminal_eq]
  -- Growing by the same links and marks keeps two graphs in step.
  unfold Graph.wired
  rw [hlinks, hmarks, h.blocks]
  exact h.grow _ _

/-- The exit is looked up in the streams, but only as to which blocks end in a return. -/
theorem returning_eq (h : g.SameDrawing k)
    (hlast : ∀ b ∈ g.blocks, ∃ x y, g.terminator b.id = .ok x ∧ k.terminator b.id = .ok y ∧
      (x.kind = .ret ↔ y.kind = .ret)) :
    ∃ ids, g.returning g.blocks = .ok ids ∧ k.returning k.blocks = .ok ids := by
  rw [← h.blocks]
  -- Both graphs stay as they are while the induction goes through the blocks.
  generalize g.blocks = blocks at hlast
  induction blocks with
  | nil => exact ⟨[], rfl, rfl⟩
  | cons b rest ih =>
    obtain ⟨ids, hg, hk⟩ := ih fun c hc => hlast c (List.mem_cons_of_mem b hc)
    obtain ⟨x, y, hx, hy, hret⟩ := hlast b List.mem_cons_self
    by_cases hterminal : b.terminal
    · refine ⟨if x.kind = .ret then b.id :: ids else ids, ?_, ?_⟩
      · simp [returning, hterminal, hx, hg, bind, Except.bind]
      · simp [returning, hterminal, hy, hk, bind, Except.bind, hret]
    · exact ⟨ids, by simpa [returning, hterminal] using hg,
        by simpa [returning, hterminal] using hk⟩

end SameDrawing

end Graph

def Failure.index? : Failure → Option Int
  | malformedTarget index .. => index.toInt?
  | contract position _ => some position
  | missingTerminator index _ => index.toInt?
  | _ => none

/-- Two outcomes of a build that show no difference: the same drawing with the same queries
answered, or failures of the same sort that point at the same index. -/
inductive SameOutcome : Except Fault Graph → Except Fault Graph → Prop
  | built {g k : Graph} {live dead : List Int} (hdrawing : g.SameDrawing k)
      (hexits : g.exits = k.exits) (hlive : g.reachable = .ok live ∧ k.reachable = .ok live)
      (hdead : g.unreachable = .ok dead ∧ k.unreachable = .ok dead) : SameOutcome (.ok g) (.ok k)
  | refused {reason other : Failure} (hname : reason.name = other.name)
      (hindex : reason.index? = other.index?) :
      SameOutcome (.error (.failure reason)) (.error (.failure other))

namespace Stream.Alike

variable {s t : Stream}

theorem graphOf (h : s.Alike t) (leaders : List Int) :
    (s.graphOf leaders).SameDrawing (t.graphOf leaders) := by
  have hcut : s.cut leaders = t.cut leaders := by
    simp only [cut, blockStarts, h.length_eq, h.inRange_eq]
  have hlayout : (s.layout leaders).SameDrawing (t.layout leaders) := by
    simp only [layout, hcut]
    exact ⟨rfl, rfl, rfl, rfl⟩
  exact (hlayout.wired h).sealed

/-- Alike streams that both end in a return or throw, with targets inside, give one drawing. -/
theorem build_of_exit (h : s.Alike t) (hs : TargetsInside s.instructions)
    (ht : TargetsInside t.instructions) (hends : EndsInExit s.instructions)
    (hendt : EndsInExit t.instructions) (method : Option String) (validate : Bool) :
    SameOutcome (s.build { method, validate }).outcome
      (t.build { method, validate }).outcome := by
  have hleaders := leaders_eq (length_ne_zero hends) hs
  have hother := leaders_eq (length_ne_zero hendt) ht
  rw [← h.leadersOfJump_eq] at hother
  rw [Stream.build_of_exit hs hends hleaders, Stream.build_of_exit ht hendt hother]
  have hdrawing := h.graphOf (ascendingSet (0 :: s.jumps.flatMap s.leadersOfJump))
  obtain ⟨live, dead, hlive, hdead, _⟩ :=
    (graphOf_finished hs hends hleaders).dead_code (s.graphOf_numbered _)
  exact .built hdrawing hdrawing.exits_eq ⟨hlive, hdrawing.reachable_eq ▸ hlive⟩
    ⟨hdead, hdrawing.unreachable_eq ▸ hdead⟩

theorem build (h : s.Alike t) (method : Option String) (validate : Bool) :
    SameOutcome (s.build { method, validate }).outcome
      (t.build { method, validate }).outcome := by
  rcases rel_cases h.strayJump? with ⟨hs, ht⟩ | ⟨x, y, hs, ht, hxy⟩
  · have hinside := targetsInside_of_none hs
    have hother := targetsInside_of_none ht
    rcases rel_cases (rel_getLast? h) with ⟨hx, hy⟩ | ⟨x, y, hx, hy, hxy⟩
    · rw [build_of_nil (List.getLast?_eq_none_iff.mp hx),
        build_of_nil (List.getLast?_eq_none_iff.mp hy)]
      exact .refused rfl rfl
    · by_cases hexit : x.kind = .ret ∨ x.kind = .throw
      · have hleaves := hxy.kinds.leave.mp hexit
        exact h.build_of_exit hinside hother ⟨x, hx, hexit⟩ ⟨y, hy, hleaves⟩ method validate
      · rw [build_of_terminator hinside hx hexit,
          build_of_terminator hother hy (hxy.kinds.leave.not.mp hexit)]
        exact .refused rfl hxy.index
  · rw [build_of_stray hs, build_of_stray ht]
    exact .refused rfl hxy.index

/-- Alike streams that return at the same places have the same exit. -/
theorem exit_eq (h : s.Alike t) {leaders : List Int} (hs : TargetsInside s.instructions)
    (hend : EndsInExit s.instructions) (hleaders : s.leaders = .ok leaders)
    (hreturns : List.Forall₂ (fun x y => x.kind = .ret ↔ y.kind = .ret)
      s.instructions t.instructions) :
    ∃ exit, (s.graphOf leaders).exit = .ok exit ∧ (t.graphOf leaders).exit = .ok exit := by
  have hdrawing := h.graphOf leaders
  have htiling := (graphOf_wellFormed hs hend hleaders).tiling
  have hreturning : ∃ ids, (s.graphOf leaders).returning (s.graphOf leaders).blocks = .ok ids ∧
      (t.graphOf leaders).returning (t.graphOf leaders).blocks = .ok ids := by
    apply hdrawing.returning_eq
    intro b hb
    obtain ⟨p, x, hp, hx⟩ := Graph.exists_last_position htiling hb
    rcases rel_cases (rel_getElem? hreturns p) with ⟨hnone, _⟩ | ⟨x', y, hx', hy, hret⟩
    · exact absurd (hnone.symm.trans hx) (by simp)
    · refine ⟨x', y, Graph.terminator_id htiling hb ?_,
        Graph.terminator_id (hdrawing.blocks ▸ htiling) (hdrawing.blocks ▸ hb) ?_, hret⟩
      · rw [hp, Stream.get?_natCast]
        exact hx'
      · rw [hp, Stream.get?_natCast]
        exact hy
  obtain ⟨ids, hg, hk⟩ := hreturning
  simp only [Graph.exit, hg, hk, bind, Except.bind]
  match ids with
  | [] => exact ⟨_, rfl, rfl⟩
  | [id] => exact ⟨_, rfl, rfl⟩
  | _ :: _ :: _ => exact ⟨_, rfl, rfl⟩

end Stream.Alike

/-- Alike lists have outcomes that show no difference. If they also return at the same places, the
graphs that are built have the same exit. -/
theorem buildGraph_control_class {xs ys : List Instruction}
    (h : List.Forall₂ Instruction.Alike xs ys) (method : Option String) (validate : Bool) :
    SameOutcome (buildGraph xs { method, validate }) (buildGraph ys { method, validate }) ∧
    (List.Forall₂ (fun x y => x.kind = .ret ↔ y.kind = .ret) xs ys → ∀ g k,
      buildGraph xs { method, validate } = .ok g → buildGraph ys { method, validate } = .ok k →
        ∃ exit, g.exit = .ok exit ∧ k.exit = .ok exit) := by
  constructor
  · have hbreach := (firstBreach_alike h 0).symm
    cases hxs : firstBreach 0 xs with
    | none =>
      have hys : firstBreach 0 ys = none := by simpa [hxs] using hbreach
      obtain ⟨s, hs, rfl⟩ := Stream.ofList_of_keeps (keepsContract_iff.mpr hxs)
      obtain ⟨t, ht, rfl⟩ := Stream.ofList_of_keeps (keepsContract_iff.mpr hys)
      simp only [buildGraph, hs, ht]
      exact Stream.Alike.build h method validate
    | some found =>
      rw [hxs] at hbreach
      obtain ⟨other, hys, hposition⟩ := Option.map_eq_some_iff.mp hbreach
      simp only [buildGraph, Stream.ofList_of_firstBreach hxs, Stream.ofList_of_firstBreach hys]
      exact .refused rfl (by simp [Failure.index?, hposition])
  · intro hreturns g k hg hk
    obtain ⟨s, leaders, rfl, hinside, hend, hleaders, rfl⟩ := eq_graphOf_of_buildGraph hg
    obtain ⟨t, others, rfl, htarget, hendt, hothers, rfl⟩ := eq_graphOf_of_buildGraph hk
    have halike : s.Alike t := h
    obtain rfl : leaders = others := by
      have hs := Stream.leaders_eq (Stream.length_ne_zero hend) hinside
      have ht := Stream.leaders_eq (Stream.length_ne_zero hendt) htarget
      rw [← halike.leadersOfJump_eq, ← hs, hleaders, hothers] at ht
      exact (Except.ok.inj ht).symm
    exact halike.exit_eq hinside hend hleaders hreturns

def Stream.callLoop : List Instruction :=
  [{ kind := .call, index := .number 0, opcode := .text "INVOKE", line := .int 7 },
    { kind := .conditionalJump, index := .flag true, target := some 3, opcode := .text "IFEQ" },
    { kind := .unconditionalJump, index := .number 2, target := some 0, line := .int 8 },
    { kind := .ret, index := .number 3, opcode := .text "IRETURN" }]

theorem whileLoop_control_class :
    SameOutcome (buildGraph Stream.whileLoop.instructions {}) (buildGraph Stream.callLoop {}) ∧
    ∃ g k exit, buildGraph Stream.whileLoop.instructions {} = .ok g ∧
      buildGraph Stream.callLoop {} = .ok k ∧ g.exit = .ok exit ∧ k.exit = .ok exit := by
  have halike : List.Forall₂ Instruction.Alike Stream.whileLoop.instructions Stream.callLoop := by
    refine .cons ?_ (.cons ?_ (.cons ?_ (.cons ?_ .nil))) <;>
      exact ⟨rfl, rfl, Kind.sameClass_iff.mpr rfl⟩
  have hreturns : List.Forall₂ (fun x y : Instruction => x.kind = .ret ↔ y.kind = .ret)
      Stream.whileLoop.instructions Stream.callLoop := by
    refine .cons ?_ (.cons ?_ (.cons ?_ (.cons ?_ .nil))) <;> decide
  obtain ⟨hsame, hexit⟩ := buildGraph_control_class halike none true
  refine ⟨hsame, ?_⟩
  obtain ⟨exit, hg, hk⟩ := hexit hreturns _ _ rfl rfl
  exact ⟨_, _, exit, rfl, rfl, hg, hk⟩

end FlowGraph
