import FlowGraph.Proofs.Drawing
import FlowGraph.Proofs.Growth

/-!
Freezing. A graph has a flag of its own and so has each of its blocks, and an edit looks at one or
the other. Unless a block is frozen by itself the flags stay in step: no other edit touches a
flag, whether it goes through or fails halfway, except for the freezing of the whole graph, which
finds every block open and sets all flags. From then on the flag that an edit looks at is set,
whichever it is, so that the edit is refused before it has done anything.
-/
namespace FlowGraph

/-- A change to a block that leaves its flag alone and that a frozen block refuses. -/
structure Block.Guarded (change : Block → Except Fault Block) (refusal : Block → Fault) :
    Prop where
  refuses : ∀ b, b.frozen = true → change b = .error (refusal b)
  keeps : ∀ b after, change b = .ok after → after.frozen = b.frozen

namespace Block

theorem withEdges_frozen (b : Block) (side : Side) (ids : List Int) :
    (b.withEdges side ids).frozen = b.frozen := by
  cases side <;> rfl

theorem guarded_append (side : Side) (edge : Int) :
    Guarded (append side edge) fun _ => .sealedList .append := by
  constructor
  · intro b hb
    simp [append, hb]
  · intro b after h
    exact (Extends.of_append h).frozen_eq

theorem guarded_remove (side : Side) (edge : Int) :
    Guarded (remove side edge) fun _ => .sealedList .remove := by
  constructor
  · intro b hb
    simp [remove, hb]
  · intro b after h
    unfold remove at h
    split at h
    · cases h
    · split at h
      · obtain rfl := Except.ok.inj h
        exact b.withEdges_frozen side _
      · cases h

theorem guarded_assign (content : Attribute) : Guarded (assign content) refusal := by
  constructor
  · intro b hb
    simp [assign, set, hb]
  · intro b after h
    obtain ⟨_, rfl⟩ := set_eq_ok_iff.mp h
    cases content with
    | edges side ids => exact b.withEdges_frozen side ids
    | id _ => rfl
    | start _ => rfl
    | stop _ => rfl
    | terminal _ => rfl

end Block

/-- The block that an edit changes by itself, past the graph. -/
def Edit.onBlock? : Edit → Option Int
  | addEdge .. => none
  | markTerminal _ => none
  | freeze => none
  | freezeBlock b => some b
  | append _ b _ => some b
  | remove _ b _ => some b
  | assign b _ => some b

namespace Graph

def InStep (g : Graph) : Prop := ∀ b ∈ g.blocks, b.frozen = g.frozen

inductive Answers (g : Graph) : Edit → Except Fault (Option Edge) → Prop
  | addEdge {source target : Int} {kind : EdgeKind} :
      Answers g (.addEdge source target kind) (.error (.failure .frozenGraph))
  | markTerminal {b : Int} : Answers g (.markTerminal b) (.error (.failure .frozenGraph))
  | freeze : Answers g .freeze (.ok none)
  | assign {b : Int} {block : Block} {content : Attribute} (hblock : g.block b = .ok block) :
      Answers g (.assign b content) (.error (.failure (.frozenBlock block.id)))
  | append {side : Side} {b edge : Int} {block : Block} (hblock : g.block b = .ok block) :
      Answers g (.append side b edge) (.error (.sealedList .append))
  | remove {side : Side} {b edge : Int} {block : Block} (hblock : g.block b = .ok block) :
      Answers g (.remove side b edge) (.error (.sealedList .remove))
  | nowhere {edit : Edit} {b : Int} {fault : Fault} (hedit : edit.onBlock? = some b)
      (hblock : g.block b = .error fault) : Answers g edit (.error fault)

variable {g after : Graph} {change : Block → Except Fault Block} {refusal : Block → Fault}
  {c : Int}

theorem block_eq_error_iff {fault : Fault} : g.block c = .error fault ↔
    Position.resolve? g.blocks.length c = none ∧ fault = .ofPosition c .noBlock := by
  have hread : Position.get? g.blocks c = none ↔ Position.resolve? g.blocks.length c = none := by
    unfold Position.get?
    cases hp : Position.resolve? g.blocks.length c with
    | none => simp
    | some p =>
      have := (Position.resolve?_eq_some_iff.mp hp).1
      simp [this]
  rw [← hread, block]
  cases Position.get? g.blocks c <;> simp [eq_comm]

theorem freeze_of_frozen (h : g.frozen = true) : g.freeze = (.ok (), g) := by
  simp [freeze, h]

namespace InStep

theorem isOpen (h : g.InStep) (hopen : g.frozen = false) : g.Open :=
  ⟨hopen, fun b hb => (h b hb).trans hopen⟩

/-- What only adds leaves the flags in step. -/
theorem extend (h : g.InStep) (hext : g.Extends after) : after.InStep := by
  intro d hd
  obtain ⟨p, hp⟩ := List.mem_iff_getElem?.mp hd
  obtain ⟨b, hb, hbd⟩ := hext.exists_old hp
  rw [hbd.frozen_eq, hext.frozen_eq]
  exact h b (List.mem_of_getElem? hb)

theorem sealed (g : Graph) : g.sealed.InStep := by
  intro b hb
  obtain ⟨old, _, rfl⟩ := List.mem_map.mp hb
  rfl

theorem sealed_eq (h : g.InStep) (hfrozen : g.frozen = true) : g.sealed = g := by
  have hsame : ∀ b ∈ g.blocks, { b with frozen := true } = b := by
    intro b hb
    rw [← (h b hb).trans hfrozen]
  have hblocks : (g.blocks.map fun b => { b with frozen := true }) = g.blocks :=
    (List.map_congr_left hsame).trans (List.map_id _)
  rw [Graph.sealed, hblocks, ← hfrozen]

/-- Freezing sets all flags and does nothing else, whether or not they are set already. -/
theorem freeze (h : g.InStep) : g.freeze = (.ok (), g.sealed) := by
  cases hfrozen : g.frozen with
  | true => rw [freeze_of_frozen hfrozen, h.sealed_eq hfrozen]
  | false => exact freeze_eq_sealed (h.isOpen hfrozen)

theorem updateBlock (h : g.InStep) (hguarded : Block.Guarded change refusal)
    (hok : g.updateBlock c change = .ok after) : after.InStep := by
  obtain ⟨p, b, changed, _, hb, hchanged, rfl⟩ := updateBlock_eq_ok hok
  intro d hd
  rcases List.mem_or_eq_of_mem_set hd with hold | rfl
  · exact h d hold
  · exact (hguarded.keeps b d hchanged).trans (h b (List.mem_of_getElem? hb))

/-- A guarded change of one block leaves the flags in step, whether or not it is made. -/
theorem commit (h : g.InStep) (hguarded : Block.Guarded change refusal) :
    (g.commit (g.updateBlock c change)).2.InStep := by
  cases hupdate : g.updateBlock c change with
  | error fault => exact h
  | ok changed => exact h.updateBlock hguarded hupdate

/-- In a frozen graph a guarded change fails, for want of the block or because it is frozen. -/
theorem updateBlock_of_frozen (h : g.InStep) (hfrozen : g.frozen = true)
    (hguarded : Block.Guarded change refusal) :
    (∃ block, g.block c = .ok block ∧ g.updateBlock c change = .error (refusal block)) ∨
      ∃ fault, g.block c = .error fault ∧ g.updateBlock c change = .error fault := by
  cases hp : Position.resolve? g.blocks.length c with
  | none =>
    right
    exact ⟨_, block_eq_error_iff.mpr ⟨hp, rfl⟩, by simp [Graph.updateBlock, hp]⟩
  | some p =>
    left
    have hlt := (Position.resolve?_eq_some_iff.mp hp).1
    have hget : g.blocks[p]? = some g.blocks[p] := List.getElem?_eq_getElem hlt
    have hrefused := hguarded.refuses _ ((h _ (List.getElem_mem hlt)).trans hfrozen)
    refine ⟨g.blocks[p], ?_, ?_⟩
    · rw [block_eq_ok_iff, Position.get?, hp]
      exact hget
    · simp only [Graph.updateBlock, hp, hget, hrefused]

end InStep

end Graph

namespace Edit

open FlowGraph.Graph

variable {g : Graph} {edit : Edit}

theorem apply_inStep (hedit : ∀ b, edit ≠ freezeBlock b) (h : g.InStep) :
    (edit.apply g).2.InStep := by
  cases edit with
  | addEdge source target kind => exact h.extend (g.addEdge_extends source target kind)
  | markTerminal b => exact h.extend (g.markTerminal_extends b)
  | freeze =>
    have happly : (freeze.apply g).2 = g.sealed := congrArg Prod.snd h.freeze
    rw [happly]
    exact InStep.sealed g
  | freezeBlock b => exact absurd rfl (hedit b)
  | append side b edge => exact h.commit (Block.guarded_append side edge)
  | remove side b edge => exact h.commit (Block.guarded_remove side edge)
  | assign b content => exact h.commit (Block.guarded_assign content)

/-- However a sequence of edits goes, the flags of the graph and its blocks are in step after
it. -/
theorem run_inStep {edits : List Edit} (hedits : ∀ b, freezeBlock b ∉ edits) (h : g.InStep) :
    (run g edits).InStep := by
  induction edits generalizing g with
  | nil => exact h
  | cons edit rest ih =>
    have hfirst : ∀ b, edit ≠ freezeBlock b := fun b hb => hedits b (hb ▸ List.mem_cons_self)
    exact ih (fun b hb => hedits b (List.mem_cons_of_mem edit hb)) (apply_inStep hfirst h)

/-- A guarded change of one block of a frozen graph is not made. -/
theorem plain_of_frozen (h : g.InStep) (hfrozen : g.frozen = true)
    {change : Block → Except Fault Block} {refusal : Block → Fault}
    (hguarded : Block.Guarded change refusal) {c : Int} (hedit : edit.onBlock? = some c)
    (hanswer : ∀ block, g.block c = .ok block → g.Answers edit (.error (refusal block))) :
    (apply.plain (g.commit (g.updateBlock c change))).2 = g ∧
      g.Answers edit (apply.plain (g.commit (g.updateBlock c change))).1 := by
  rcases h.updateBlock_of_frozen hfrozen hguarded with ⟨block, hblock, hupdate⟩ |
    ⟨fault, hblock, hupdate⟩
  · rw [hupdate]
    exact ⟨rfl, hanswer block hblock⟩
  · rw [hupdate]
    exact ⟨rfl, .nowhere hedit hblock⟩

/-- An edit of a frozen graph changes nothing, and is answered as the flag it looks at demands. -/
theorem apply_of_frozen (hedit : ∀ b, edit ≠ freezeBlock b) (h : g.InStep)
    (hfrozen : g.frozen = true) :
    (edit.apply g).2 = g ∧ g.Answers edit (edit.apply g).1 := by
  cases edit with
  | addEdge source target kind =>
    have happly : (addEdge source target kind).apply g = (.error (.failure .frozenGraph), g) := by
      simp [apply, Graph.addEdge, hfrozen, Except.map]
    rw [happly]
    exact ⟨rfl, .addEdge⟩
  | markTerminal b =>
    have happly : (markTerminal b).apply g = (.error (.failure .frozenGraph), g) := by
      simp [apply, apply.plain, Graph.markTerminal, hfrozen, Except.map]
    rw [happly]
    exact ⟨rfl, .markTerminal⟩
  | freeze =>
    have happly : freeze.apply g = (.ok none, g) := by
      simp [apply, apply.plain, freeze_of_frozen hfrozen, Except.map]
    rw [happly]
    exact ⟨rfl, .freeze⟩
  | freezeBlock b => exact absurd rfl (hedit b)
  | append side b edge =>
    exact plain_of_frozen h hfrozen (Block.guarded_append side edge) rfl fun _ => .append
  | remove side b edge =>
    exact plain_of_frozen h hfrozen (Block.guarded_remove side edge) rfl fun _ => .remove
  | assign b content =>
    exact plain_of_frozen h hfrozen (Block.guarded_assign content) rfl fun _ => .assign

theorem run_of_frozen {edits : List Edit} (hedits : ∀ b, freezeBlock b ∉ edits) (h : g.InStep)
    (hfrozen : g.frozen = true) : run g edits = g := by
  induction edits with
  | nil => rfl
  | cons edit rest ih =>
    have hfirst : ∀ b, edit ≠ freezeBlock b := fun b hb => hedits b (hb ▸ List.mem_cons_self)
    have hrest := ih fun b hb => hedits b (List.mem_cons_of_mem edit hb)
    calc run g (edit :: rest) = run (edit.apply g).2 rest := rfl
      _ = run g rest := by rw [(apply_of_frozen hfirst h hfrozen).1]
      _ = g := hrest

/-- Freezing is total and permanent. Whatever is done to a graph that was made of open blocks,
short of freezing a block by itself, its blocks are frozen if it is and otherwise none of them is,
and it can be frozen with all that it holds. Once it is, nothing that is done to it changes it:
edits through the graph and assignments to its blocks are refused as edits of something frozen,
changes to its lists of edges as changes to sealed lists, and freezing it again does nothing. -/
theorem freezing_total_and_permanent (s : Stream) (blocks : List Block)
    (hblocks : ∀ b ∈ blocks, b.frozen = false) (edits : List Edit)
    (hedits : ∀ b, freezeBlock b ∉ edits) {g : Graph}
    (hg : run (Graph.ofBlocks s blocks) edits = g) :
    (∀ b ∈ g.blocks, b.frozen = g.frozen) ∧
    (∃ frozen, g.freeze = (.ok (), frozen) ∧
      frozen.frozen = true ∧ (∀ b ∈ frozen.blocks, b.frozen = true) ∧
      frozen.stream = g.stream ∧ frozen.edges = g.edges ∧ frozen.table = g.table ∧
      frozen.blocks = g.blocks.map fun b => { b with frozen := true }) ∧
    (g.frozen = true → g.freeze = (.ok (), g) ∧
      (∀ later, (∀ b, freezeBlock b ∉ later) → run g later = g) ∧
      ∀ edit, (∀ b, edit ≠ freezeBlock b) →
        (edit.apply g).2 = g ∧ g.Answers edit (edit.apply g).1) := by
  have hstart : (Graph.ofBlocks s blocks).InStep := hblocks
  have hstep : g.InStep := hg ▸ run_inStep hedits hstart
  refine ⟨hstep, ⟨g.sealed, hstep.freeze, rfl, InStep.sealed g, rfl, rfl, rfl, rfl⟩, ?_⟩
  intro hfrozen
  refine ⟨freeze_of_frozen hfrozen, ?_, ?_⟩
  · intro later hlater
    exact run_of_frozen hlater hstep hfrozen
  · intro edit hedit
    exact apply_of_frozen hedit hstep hfrozen

/-- The blocks of the loop are frozen in the middle of edits, the first of which fails halfway,
and stay as they are. -/
theorem whileLoop_stays_frozen :
    ∃ g, run (Graph.ofBlocks Stream.whileLoop (Stream.whileLoop.cut [2, 3]))
      [addEdge 0 9 .trueBranch, append .incoming (-1) 7, freeze, assign 0 (.id 4)] = g ∧
    g.frozen = true ∧ (∀ b ∈ g.blocks, b.frozen = true) ∧
    run g [addEdge 0 1 .fallthrough, remove .incoming 2 7, assign 1 (.terminal true),
      freeze] = g := by
  obtain ⟨hstep, _, hpermanent⟩ := freezing_total_and_permanent Stream.whileLoop
    (Stream.whileLoop.cut [2, 3]) (by decide)
    [addEdge 0 9 .trueBranch, append .incoming (-1) 7, freeze, assign 0 (.id 4)] (by simp) rfl
  obtain ⟨_, hsame, _⟩ := hpermanent rfl
  exact ⟨_, rfl, rfl, hstep, hsame _ (by simp)⟩

end Edit

end FlowGraph
