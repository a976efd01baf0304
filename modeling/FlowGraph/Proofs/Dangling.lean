import FlowGraph.Proofs.Wiring
import Mathlib.Data.List.Forall2

/-!
The exact effect of connecting the blocks of a partition, at whatever leaders the stream was cut.
Blocks are served in turn, and a block whose wants all lead to starts of blocks adds one edge for
each of them, or is marked if it wants nothing because it leaves the method. The first block with
a want that leads nowhere ends the run with that want: what the blocks before it have added stays,
and the block itself adds nothing.
-/
namespace FlowGraph

namespace Stream

def wants (s : Stream) (b : Block) : List (Int × EdgeKind) :=
  match s.get? b.lastIndex with
  | none => []
  | some last =>
    match last.kind with
    | .conditionalJump => [(last.goal, .trueBranch), (b.stop, .falseBranch)]
    | .unconditionalJump => [(last.goal, .fallthrough)]
    | .ret => []
    | .throw => []
    | _ => [(b.stop, .fallthrough)]

def leavesAt (s : Stream) (b : Block) : Bool :=
  match s.get? b.lastIndex with
  | none => false
  | some last => last.kind == .ret || last.kind == .throw

end Stream

namespace Graph

def StartsAt (g : Graph) (i : Int) : Prop := ∃ c ∈ g.blocks, c.start = i

def Supplied (g : Graph) (b : Block) : Prop := ∀ d ∈ g.stream.wants b, g.StartsAt d.1

instance (g : Graph) (i : Int) : Decidable (g.StartsAt i) :=
  inferInstanceAs (Decidable (∃ c ∈ g.blocks, c.start = i))

instance (g : Graph) (b : Block) : Decidable (g.Supplied b) :=
  inferInstanceAs (Decidable (∀ d ∈ g.stream.wants b, g.StartsAt d.1))

structure Serves (g : Graph) (b : Block) (want : Int × EdgeKind) (l : Link) : Prop where
  source_eq : l.source = b.id
  kind_eq : l.kind = want.2
  target_eq : ∃ c ∈ g.blocks, c.start = want.1 ∧ c.id = l.target

/-- The graph with exactly what some of its blocks have added, in this order: their edges,
numbered from zero and listed at both ends, and the marks of those that leave the method. -/
structure Connected (g : Graph) (done : List Block) (after : Graph) : Prop where
  edges : ∃ links,
    List.Forall₂ (fun b own => List.Forall₂ (g.Serves b) (g.stream.wants b) own) done links ∧
    after.edges = Link.number 0 links.flatten
  blocks : after.blocks = g.blocks.map fun b =>
    { b with
      outgoing := (after.leaving b.id).map (·.id)
      incoming := (after.arriving b.id).map (·.id)
      terminal := done.contains b && g.stream.leavesAt b }
  others : after = { g with edges := after.edges, blocks := after.blocks }

variable {g : Graph} {b : Block}

theorem startingAt?_eq_none_iff_not_startsAt (hu : g.UpToDate) {i : Int} :
    g.startingAt? i = none ↔ ¬ g.StartsAt i := by
  rw [startingAt?_eq_none_iff hu, StartsAt, not_exists]
  simp only [not_and]

/-- The want of a branch that is not taken is the index after it, which is where its block
ends. -/
theorem Laid.demandsOf_eq_wants (h : g.Laid) (hb : b ∈ g.blocks) :
    g.demandsOf b = g.stream.wants b := by
  obtain ⟨p, last, hp, hget⟩ := exists_last_position h.tiling hb
  have hlast : g.stream.get? b.lastIndex = some last := by rw [hp, Stream.get?_natCast, hget]
  have hstop : last.index.toInt + 1 = b.stop := by
    rw [Stream.index_eq hget, ← hp]
    unfold Block.lastIndex
    omega
  simp only [demandsOf, Stream.wants, hlast, Instruction.demands, hstop]
  cases last.kind <;> rfl

theorem Laid.met_iff_supplied (h : g.Laid) (hb : b ∈ g.blocks) : g.Met b ↔ g.Supplied b := by
  unfold Met Supplied
  rw [h.demandsOf_eq_wants hb]
  simp only [ne_eq, startingAt?_eq_none_iff_not_startsAt h.upToDate, not_not]

theorem Laid.mem_marks_iff_leavesAt (h : g.Laid) (hb : b ∈ g.blocks) {done : List Block}
    (hdone : ∀ c ∈ done, c ∈ g.blocks) :
    b.id ∈ done.flatMap g.marksOf ↔ (done.contains b && g.stream.leavesAt b) = true := by
  obtain ⟨last, hlast⟩ := h.exists_last hb
  rw [mem_marks_iff h.tiling hdone hb hlast, isTerminal_iff]
  simp [Stream.leavesAt, hlast]

/-- A block whose wants are met serves them one by one. -/
theorem Laid.serves_linksOf (h : g.Laid) (hb : b ∈ g.blocks) (hmet : g.Met b) :
    List.Forall₂ (g.Serves b) (g.stream.wants b) (g.linksOf b) := by
  unfold Met at hmet
  unfold linksOf
  rw [h.demandsOf_eq_wants hb] at hmet ⊢
  generalize g.stream.wants b = wants at hmet
  induction wants with
  | nil => exact .nil
  | cons d rest ih =>
    obtain ⟨target, htarget⟩ := Option.ne_none_iff_exists'.mp (hmet d List.mem_cons_self)
    have hrest := ih fun x hx => hmet x (List.mem_cons_of_mem d hx)
    have hserves : g.Serves b d ⟨b.id, target, d.2⟩ :=
      ⟨rfl, rfl, exists_of_startingAt? h.upToDate htarget⟩
    simp only [List.filterMap_cons, htarget, Option.map_some]
    exact .cons hserves hrest

/-- What a block gains that had nothing is all it has. -/
theorem Bare.gain_eq (h : g.Bare) (hb : b ∈ g.blocks) {p : Nat} (hid : b.id = p)
    (edges : List Edge) (marks : List Int) :
    b.gain edges marks p =
      { b with
        outgoing := (edges.filter fun e => e.source == b.id).map (·.id)
        incoming := (edges.filter fun e => e.target == b.id).map (·.id)
        terminal := marks.contains b.id } := by
  have hout : b.outgoing = [] := by rw [h.block_eq b hb]
  have hin : b.incoming = [] := by rw [h.block_eq b hb]
  have hterminal : b.terminal = false := by rw [h.block_eq b hb]
  simp [Block.gain, hid, hout, hin, hterminal]

/-- Growth by what blocks with met demands contribute is all that connecting them does. -/
theorem Laid.connected_grow (h : g.Laid) (hbare : g.Bare) {done : List Block}
    (hdone : ∀ c ∈ done, c ∈ g.blocks) (hmet : ∀ c ∈ done, g.Met c) :
    g.Connected done (g.grow (done.flatMap g.linksOf) (done.flatMap g.marksOf)) := by
  have hedges : (g.grow (done.flatMap g.linksOf) (done.flatMap g.marksOf)).edges =
      Link.number 0 (done.flatMap g.linksOf) := by
    rw [grow_edges, hbare.edges_eq]
    rfl
  constructor
  · refine ⟨done.map g.linksOf, ?_, ?_⟩
    · rw [List.forall₂_map_right_iff, List.forall₂_same]
      exact fun c hc => h.serves_linksOf (hdone c hc) (hmet c hc)
    · rw [hedges, List.flatMap_def]
  · apply List.ext_getElem?
    intro p
    rw [getElem?_grow_blocks, List.getElem?_map]
    cases hp : g.blocks[p]? with
    | none => rfl
    | some b =>
      have hb := List.mem_of_getElem? hp
      have hmark : (done.flatMap g.marksOf).contains b.id =
          (done.contains b && g.stream.leavesAt b) := by
        rw [Bool.eq_iff_iff, List.contains_iff_mem]
        exact h.mem_marks_iff_leavesAt hb hdone
      rw [Option.map_some, Option.map_some, hbare.gain_eq hb (h.tiling.id_eq p b hp), hmark,
        leaving, arriving, hedges, hbare.edges_eq]
      rfl
  · rfl

/-- Connecting blocks whose wants are all met. -/
theorem Laid.connect_of_supplied (h : g.Laid) (hbare : g.Bare)
    (hall : ∀ b ∈ g.blocks, g.Supplied b) :
    ∃ after, g.connect = (.ok after.edges, after) ∧ g.Connected g.blocks after := by
  have hmet : ∀ b ∈ g.blocks, g.Met b := fun b hb => (h.met_iff_supplied hb).mpr (hall b hb)
  refine ⟨g.wired, ?_, h.connected_grow hbare (fun _ hb => hb) hmet⟩
  rw [h.connect_eq_wired hmet, hbare.wired_edges, hbare.edges_eq]
  rfl

/-- Connecting blocks of which one has a want that leads nowhere. -/
theorem Laid.connect_of_dangling (h : g.Laid) (hbare : g.Bare) {before rest : List Block}
    (hblocks : g.blocks = before ++ b :: rest) (hbefore : ∀ c ∈ before, g.Supplied c)
    {met more : List (Int × EdgeKind)} {want : Int × EdgeKind}
    (hwants : g.stream.wants b = met ++ want :: more) (hmet : ∀ d ∈ met, g.StartsAt d.1)
    (hwant : ¬ g.StartsAt want.1) : ∃ after,
      g.connect = (.error (.failure (.danglingTarget b.id want.1)), after) ∧
      g.Connected before after := by
  have hin : ∀ c ∈ before, c ∈ g.blocks := by
    intro c hc
    rw [hblocks]
    exact List.mem_append_left _ hc
  have hb : b ∈ g.blocks := by
    rw [hblocks]
    exact List.mem_append_right before List.mem_cons_self
  have hsound : ∀ c ∈ before, g.Met c := fun c hc =>
    (h.met_iff_supplied (hin c hc)).mpr (hbefore c hc)
  have hfound : ∀ d ∈ met, g.startingAt? d.1 ≠ none := by
    intro d hd hnone
    exact (startingAt?_eq_none_iff_not_startsAt h.upToDate).mp hnone (hmet d hd)
  have hrun := h.connectBlocks_of_unmet before rest hin hsound hb
    ((h.demandsOf_eq_wants hb).trans hwants) hfound
    ((startingAt?_eq_none_iff_not_startsAt h.upToDate).mpr hwant) [] []
  rw [grow_nil, ← hblocks] at hrun
  exact ⟨_, hrun, h.connected_grow hbare hin hsound⟩

end Graph

/-- Connecting a partition at any leaders. If all wants of all blocks lead to starts of blocks,
every block is served, and the edges that are handed back are those of the graph. Otherwise the
run fails at the first block with a want that leads nowhere, for the first such want, and only the
blocks before it have been served. -/
theorem Stream.connect_effect (s : Stream) (hs : s.length ≠ 0) (leaders : List Int) :
    ∃ g, s.partition leaders = .ok g ∧
      ((∀ b ∈ g.blocks, g.Supplied b) →
        ∃ after, g.connect = (.ok after.edges, after) ∧ g.Connected g.blocks after) ∧
      ((¬ ∀ b ∈ g.blocks, g.Supplied b) → ∃ before b rest met want more after,
        g.blocks = before ++ b :: rest ∧ b.id = before.length ∧ (∀ c ∈ before, g.Supplied c) ∧
        s.wants b = met ++ want :: more ∧ (∀ d ∈ met, g.StartsAt d.1) ∧ ¬ g.StartsAt want.1 ∧
        g.connect = (.error (.failure (.danglingTarget b.id want.1)), after) ∧
        g.Connected before after) := by
  have hlaid : (s.layout leaders).Laid := Graph.laid_cut s leaders hs
  have hbare := Graph.layout_bare s leaders
  refine ⟨s.layout leaders, partition_eq s leaders hs, hlaid.connect_of_supplied hbare, ?_⟩
  intro hunmet
  obtain ⟨before, b, rest, hblocks, hbefore, hb⟩ := exists_first_not hunmet
  obtain ⟨met, want, more, hwants, hmet, hwant⟩ := exists_first_not hb
  obtain ⟨after, hconnect, hconnected⟩ :=
    hlaid.connect_of_dangling hbare hblocks hbefore hwants hmet hwant
  have hid : b.id = before.length := hlaid.tiling.id_eq before.length b (by simp [hblocks])
  exact ⟨before, b, rest, met, want, more, after, hblocks, hid, hbefore, hwants, hmet, hwant,
    hconnect, hconnected⟩

/-- A loop that tests and goes back by a branch, with nothing behind it. -/
def Stream.openLoop : Stream where
  instructions :=
    [{ kind := .comparison, index := .number 0 },
      { kind := .conditionalJump, index := .number 1, target := some 0 }]
  contract := rfl

/-- The branch of the open loop has a target but nowhere to go on to, and so it adds no edge at
all. -/
theorem Stream.openLoop_connect_effect :
    (∃ g after, openLoop.partition [1] = .ok g ∧
      g.connect = (.error (.failure (.danglingTarget 1 2)), after) ∧
      after.edges = [⟨0, 0, 1, .fallthrough⟩] ∧ g.Connected (g.blocks.take 1) after) ∧
    ∃ g after, whileLoop.partition [3, 2] = .ok g ∧ g.connect = (.ok after.edges, after) ∧
      g.Connected g.blocks after := by
  constructor
  · obtain ⟨g, hg, _, hfails⟩ := connect_effect openLoop (by decide) [1]
    obtain rfl := Except.ok.inj hg
    obtain ⟨before, b, rest, met, want, more, after, hblocks, hid, _, _, _, _, hconnect,
      hconnected⟩ := hfails (by decide)
    obtain ⟨hfault, rfl⟩ := Prod.mk.inj hconnect
    have hnamed : 1 = b.id := by
      injection hfault with hfault
      injection hfault with hfault
      injection hfault
    have hlength : before.length = 1 := by omega
    rw [← List.take_left' hlength, ← hblocks] at hconnected
    exact ⟨_, _, rfl, rfl, rfl, hconnected⟩
  · obtain ⟨g, hg, hserved, _⟩ := connect_effect whileLoop (by decide) [3, 2]
    obtain rfl := Except.ok.inj hg
    obtain ⟨after, hconnect, hconnected⟩ := hserved (by decide)
    exact ⟨_, after, hg, hconnect, hconnected⟩

end FlowGraph
