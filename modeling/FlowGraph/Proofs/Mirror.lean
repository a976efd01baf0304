import FlowGraph.Proofs.Freezing
import FlowGraph.Proofs.Simulation

/-!
One fact kept in three places. An edge stands in the list of edges, and its id in the list of
outgoing edges of its source and in the list of incoming edges of its target. Joining blocks that
exist, marking blocks and freezing keep the three in agreement: each of the two lists of a block
holds the ids of just the edges that touch it on that side, in order of creation. Successors and
predecessors are read off these lists with repeats dropped, so they say the same about every pair
of blocks. When a graph is built its edges come block by block, and then predecessors are
ascending too.
-/
namespace FlowGraph

namespace Edge

/-- The end of an edge at the block that lists it on a given side. -/
def near : Side → Edge → Int
  | .outgoing, e => e.source
  | .incoming, e => e.target

def far : Side → Edge → Int
  | .outgoing, e => e.target
  | .incoming, e => e.source

end Edge

def Edit.Joins (count : Nat) : Edit → Prop
  | addEdge source target _ => (0 ≤ source ∧ source < count) ∧ 0 ≤ target ∧ target < count
  | markTerminal _ => True
  | freeze => True
  | freezeBlock _ => False
  | append .. => False
  | remove .. => False
  | assign .. => False

instance (count : Nat) : (edit : Edit) → Decidable (edit.Joins count)
  | .addEdge .. => inferInstanceAs (Decidable ((_ ∧ _) ∧ _ ∧ _))
  | .markTerminal _ => .isTrue trivial
  | .freeze => .isTrue trivial
  | .freezeBlock _ => .isFalse id
  | .append .. => .isFalse id
  | .remove .. => .isFalse id
  | .assign .. => .isFalse id

namespace Graph

def touching (g : Graph) (side : Side) (b : Int) : List Edge :=
  g.edges.filter fun e => e.near side == b

structure Mirrored (g : Graph) : Prop where
  numbered : g.Numbered
  ends : ∀ side, ∀ e ∈ g.edges, 0 ≤ e.near side ∧ e.near side < g.blocks.length
  lists : ∀ (side : Side) (p : Nat) (b : Block), g.blocks[p]? = some b →
    b.edges side = (g.touching side p).map (·.id)

def neighbours (g : Graph) (side : Side) (b : Int) : Except Fault (List Int) := do
  let edges ← g.edgesOf side b
  .ok (distinct (edges.map (Edge.far side)))

/-- At one side of block `b`, some edge that leads across to `c` is older than all that lead to
`d`. -/
def Earlier (g : Graph) (side : Side) (b c d : Int) : Prop :=
  ∃ e ∈ g.edges, e.near side = b ∧ e.far side = c ∧
    ∀ f ∈ g.edges, f.near side = b → f.far side = d → e.id < f.id

/-- How the lists on one side of the blocks record the edges: each id once, where its edge ends,
nothing else, and every list in ascending order. -/
structure Records (g : Graph) (side : Side) : Prop where
  once : ∀ e ∈ g.edges, (g.blocks.flatMap (·.edges side)).count e.id = 1
  near : ∀ e ∈ g.edges, ∃ b, g.block (e.near side) = .ok b ∧ e.id ∈ b.edges side
  listed : ∀ (p : Nat) (b : Block), g.blocks[p]? = some b → ∀ id ∈ b.edges side,
    ∃ e ∈ g.edges, e.near side = p ∧ e.id = id
  ascending : ∀ b ∈ g.blocks, (b.edges side).Pairwise (· < ·)

variable {g : Graph} {side : Side}

theorem successors_eq_neighbours (b : Int) : g.successors b = g.neighbours .outgoing b := rfl

theorem predecessors_eq_neighbours (b : Int) : g.predecessors b = g.neighbours .incoming b := rfl

section Numbered

theorem Numbered.eq_of_id (hn : g.Numbered) {e f : Edge} (he : e ∈ g.edges) (hf : f ∈ g.edges)
    (h : e.id = f.id) : e = f := by
  have hget := hn.get?_id he
  rw [h, hn.get?_id hf] at hget
  exact (Option.some.inj hget).symm

theorem Numbered.ordered (hn : g.Numbered) : g.edges.Pairwise fun e f => e.id < f.id := by
  apply List.pairwise_iff_getElem.mpr
  intro j k hj hk hjk
  have hfirst := hn j _ (List.getElem?_eq_getElem hj)
  have hsecond := hn k _ (List.getElem?_eq_getElem hk)
  omega

theorem Numbered.touching_ordered (hn : g.Numbered) (side : Side) (b : Int) :
    (g.touching side b).Pairwise fun e f => e.id < f.id := hn.ordered.filter _

theorem Numbered.mapM_edge (hn : g.Numbered) (es : List Edge) (hes : ∀ e ∈ es, e ∈ g.edges) :
    (es.map (·.id)).mapM g.edge = .ok es := by
  have hread : ∀ e ∈ es, (g.edge ∘ (·.id)) e = .ok (id e) :=
    fun e he => edge_eq_ok_iff.mpr (hn.get?_id (hes e he))
  rw [List.mapM_map, mapM_eq_map es hread, List.map_id]

end Numbered

theorem mem_touching {b : Int} {e : Edge} :
    e ∈ g.touching side b ↔ e ∈ g.edges ∧ e.near side = b := by
  simp [touching]

namespace Mirrored

/-- Agreement is a matter of the edges and the lists alone. -/
theorem of_same_lists (h : g.Mirrored) (after : Graph) (hedges : after.edges = g.edges)
    (hlength : after.blocks.length = g.blocks.length)
    (hblocks : ∀ (p : Nat) (c : Block), after.blocks[p]? = some c →
      ∃ b, g.blocks[p]? = some b ∧ ∀ side, c.edges side = b.edges side) : after.Mirrored where
  numbered := by
    intro k e he
    rw [hedges] at he
    exact h.numbered k e he
  ends := by
    rw [hedges, hlength]
    exact h.ends
  lists := by
    intro side p c hc
    obtain ⟨b, hb, hsame⟩ := hblocks p c hc
    rw [hsame side, h.lists side p b hb, touching, touching, hedges]

/-- New edges between blocks that exist are listed at their ends as they come. -/
theorem grow (h : g.Mirrored) {links : List Link} (marks : List Int)
    (hlinks : ∀ l ∈ links, (0 ≤ l.source ∧ l.source < g.blocks.length) ∧
      0 ≤ l.target ∧ l.target < g.blocks.length) : (g.grow links marks).Mirrored where
  numbered := grow_numbered links marks h.numbered
  ends := by
    intro side e he
    rw [length_grow_blocks]
    rw [grow_edges] at he
    rcases List.mem_append.mp he with hold | hnew
    · exact h.ends side e hold
    · have hlink : e.link ∈ links := by
        rw [← Link.map_link_number g.edges.length links]
        exact List.mem_map_of_mem hnew
      cases side with
      | outgoing => exact (hlinks _ hlink).1
      | incoming => exact (hlinks _ hlink).2
  lists := by
    intro side p c hc
    rw [getElem?_grow_blocks] at hc
    obtain ⟨b, hb, rfl⟩ := Option.map_eq_some_iff.mp hc
    have hold := h.lists side p b hb
    rw [touching, grow_edges, List.filter_append, List.map_append]
    cases side with
    | outgoing => exact congrArg (· ++ _) hold
    | incoming => exact congrArg (· ++ _) hold

theorem sealed (h : g.Mirrored) : g.sealed.Mirrored := by
  refine h.of_same_lists g.sealed rfl (List.length_map _) ?_
  intro p c hc
  obtain ⟨b, hb, rfl⟩ := Option.map_eq_some_iff.mp ((List.getElem?_map).symm.trans hc)
  exact ⟨b, hb, fun side => by cases side <;> rfl⟩

theorem markTerminal (h : g.Mirrored) (b : Int) : (g.markTerminal b).2.Mirrored := by
  unfold Graph.markTerminal
  split
  · exact h
  · cases hmark : g.updateBlock b (Block.assign (.terminal true)) with
    | error fault => exact h
    | ok marked =>
      obtain ⟨p, old, changed, _, hold, hchanged, rfl⟩ := updateBlock_eq_ok hmark
      have hsame : ∀ side, changed.edges side = old.edges side := by
        obtain ⟨_, rfl⟩ := Block.set_eq_ok_iff.mp hchanged
        intro side
        cases side <;> rfl
      refine h.of_same_lists { g with blocks := g.blocks.set p changed } rfl List.length_set ?_
      intro q c hc
      by_cases hpq : p = q
      · subst hpq
        have hp : p < g.blocks.length := (List.getElem?_eq_some_iff.mp hold).1
        obtain rfl : changed = c := by simpa [hp] using hc
        exact ⟨old, hold, hsame⟩
      · exact ⟨c, by simpa [hpq] using hc, fun _ => rfl⟩

theorem mem_edges_iff (h : g.Mirrored) {p : Nat} {b : Block} (hb : g.blocks[p]? = some b)
    {id : Int} :
    id ∈ b.edges side ↔ ∃ e ∈ g.edges, e.near side = p ∧ e.id = id := by
  rw [h.lists side p b hb, List.mem_map]
  simp only [mem_touching, and_assoc]

theorem exists_near (h : g.Mirrored) {e : Edge} (he : e ∈ g.edges) (side : Side) :
    ∃ b, g.block (e.near side) = .ok b ∧ b ∈ g.blocks ∧ e.id ∈ b.edges side := by
  obtain ⟨hlow, hhigh⟩ := h.ends side e he
  obtain ⟨p, hp⟩ := Int.eq_ofNat_of_zero_le hlow
  have hget : g.blocks[p]? = some g.blocks[p] := List.getElem?_eq_getElem (by omega)
  refine ⟨g.blocks[p], ?_, List.mem_of_getElem? hget, (h.mem_edges_iff hget).mpr ⟨e, he, hp, rfl⟩⟩
  rw [hp]
  exact block_natCast hget

theorem ascending (h : g.Mirrored) {b : Block} (hb : b ∈ g.blocks) :
    (b.edges side).Pairwise (· < ·) := by
  obtain ⟨p, hp⟩ := List.mem_iff_getElem?.mp hb
  rw [h.lists side p b hp]
  exact List.pairwise_map.mpr (h.numbered.touching_ordered side p)

/-- No id is listed twice on the same side: within a list ids ascend, and edges at different
blocks have different ids. -/
theorem nodup_lists (h : g.Mirrored) (side : Side) : (g.blocks.flatMap (·.edges side)).Nodup := by
  apply List.pairwise_flatMap.mpr
  constructor
  · intro b hb
    exact (h.ascending hb).imp Int.ne_of_lt
  · apply List.pairwise_iff_getElem.mpr
    intro p q hp hq hpq i hi j hj hij
    obtain ⟨e, he, hnear, rfl⟩ := (h.mem_edges_iff (List.getElem?_eq_getElem hp)).mp hi
    obtain ⟨f, hf, hnear', rfl⟩ := (h.mem_edges_iff (List.getElem?_eq_getElem hq)).mp hj
    rw [h.numbered.eq_of_id he hf hij] at hnear
    omega

theorem records (h : g.Mirrored) (side : Side) : g.Records side where
  once := by
    intro e he
    obtain ⟨b, _, hb, hlisted⟩ := h.exists_near he side
    rw [(h.nodup_lists side).count, if_pos (List.mem_flatMap.mpr ⟨b, hb, hlisted⟩)]
  near := by
    intro e he
    obtain ⟨b, hb, _, hlisted⟩ := h.exists_near he side
    exact ⟨b, hb, hlisted⟩
  listed := fun _ _ hb _ => (h.mem_edges_iff hb).mp
  ascending := fun _ hb => h.ascending hb

theorem edgesOf_eq (h : g.Mirrored) (side : Side) {b : Int} (hlow : 0 ≤ b)
    (hhigh : b < g.blocks.length) :
    g.edgesOf side b = .ok (g.touching side b) := by
  obtain ⟨p, rfl⟩ := Int.eq_ofNat_of_zero_le hlow
  have hget : g.blocks[p]? = some g.blocks[p] := List.getElem?_eq_getElem (by omega)
  have hread := h.numbered.mapM_edge (g.touching side p) fun e he => (mem_touching.mp he).1
  simp only [edgesOf, block_natCast hget, bind, Except.bind, h.lists side p _ hget, hread]

theorem neighbours_eq (h : g.Mirrored) (side : Side) {b : Int} (hlow : 0 ≤ b)
    (hhigh : b < g.blocks.length) :
    g.neighbours side b = .ok (distinct ((g.touching side b).map (Edge.far side))) := by
  simp only [neighbours, h.edgesOf_eq side hlow hhigh, bind, Except.bind]

/-- The neighbours of a block on one side are found, each once, in the order of the oldest edges
to them. -/
theorem neighbours_ok (h : g.Mirrored) (side : Side) {b : Int} (hlow : 0 ≤ b)
    (hhigh : b < g.blocks.length) : ∃ found, g.neighbours side b = .ok found ∧ found.Nodup ∧
      found.Pairwise (g.Earlier side b) ∧
      ∀ c, c ∈ found ↔ ∃ e ∈ g.edges, e.near side = b ∧ e.far side = c := by
  refine ⟨_, h.neighbours_eq side hlow hhigh, nodup_distinct _, ?_, ?_⟩
  · apply (distinct_pairwise (Edge.far side) (h.numbered.touching_ordered side b)).imp
    rintro c d ⟨e, he, hfar, hfirst⟩
    obtain ⟨hmem, hnear⟩ := mem_touching.mp he
    refine ⟨e, hmem, hnear, hfar, ?_⟩
    intro f hf hnear' hfar'
    exact hfirst f (mem_touching.mpr ⟨hf, hnear'⟩) hfar'
  · intro c
    simp only [mem_distinct, List.mem_map, mem_touching, and_assoc]

end Mirrored

theorem Bare.mirrored (h : g.Bare) : g.Mirrored where
  numbered := by
    intro k e he
    simp [h.edges_eq] at he
  ends := by simp [h.edges_eq]
  lists := by
    intro side p b hb
    rw [h.block_eq b (List.mem_of_getElem? hb), touching, h.edges_eq]
    cases side <;> rfl

end Graph

namespace Edit

variable {g : Graph} {edit : Edit}

theorem Joins.ne_freezeBlock {count : Nat} (h : edit.Joins count) (b : Int) :
    edit ≠ freezeBlock b := by
  rintro rfl
  exact h

theorem apply_mirrored (hedit : edit.Joins g.blocks.length) (hstep : g.InStep) (h : g.Mirrored) :
    (edit.apply g).2.Mirrored ∧ (edit.apply g).2.blocks.length = g.blocks.length := by
  cases hfrozen : g.frozen with
  | true =>
    rw [(apply_of_frozen hedit.ne_freezeBlock hstep hfrozen).1]
    exact ⟨h, rfl⟩
  | false =>
    have hopen := hstep.isOpen hfrozen
    cases edit with
    | addEdge source target kind =>
      obtain ⟨⟨hlow, hhigh⟩, hlow', hhigh'⟩ := hedit
      obtain ⟨p, rfl⟩ := Int.eq_ofNat_of_zero_le hlow
      obtain ⟨q, rfl⟩ := Int.eq_ofNat_of_zero_le hlow'
      simp only [apply,
        Graph.addEdge_eq_grow hopen (Int.ofNat_lt.mp hhigh) (Int.ofNat_lt.mp hhigh') kind]
      refine ⟨h.grow [] ?_, Graph.length_grow_blocks g _ _⟩
      intro l hl
      obtain rfl := List.mem_singleton.mp hl
      exact ⟨⟨hlow, hhigh⟩, hlow', hhigh'⟩
    | markTerminal b => exact ⟨h.markTerminal b, (g.markTerminal_extends b).length_eq⟩
    | freeze =>
      simp only [apply, apply.plain, Graph.freeze_eq_sealed hopen]
      exact ⟨h.sealed, List.length_map _⟩
    | freezeBlock b => exact hedit.elim
    | append side b edge => exact hedit.elim
    | remove side b edge => exact hedit.elim
    | assign b content => exact hedit.elim

/-- The lists agree with the edges however many blocks are joined or marked, before freezing or
after. -/
theorem run_mirrored {edits : List Edit} (hedits : ∀ e ∈ edits, e.Joins g.blocks.length)
    (hstep : g.InStep) (h : g.Mirrored) :
    (run g edits).Mirrored ∧ (run g edits).blocks.length = g.blocks.length := by
  induction edits generalizing g with
  | nil => exact ⟨h, rfl⟩
  | cons edit rest ih =>
    have hfirst := hedits edit List.mem_cons_self
    obtain ⟨hmirrored, hlength⟩ := apply_mirrored hfirst hstep h
    have hlater : ∀ e ∈ rest, e.Joins (edit.apply g).2.blocks.length := by
      rw [hlength]
      exact fun e he => hedits e (List.mem_cons_of_mem edit he)
    obtain ⟨hend, hsame⟩ := ih hlater (apply_inStep hfirst.ne_freezeBlock hstep) hmirrored
    exact ⟨hend, hsame.trans hlength⟩

end Edit

/-- The blocks of a finished graph contribute their links in turn, so that the sources of its
edges ascend. -/
theorem Graph.Finished.sources_ordered {g : Graph} (h : g.Finished) :
    g.edges.Pairwise fun e f => e.source ≤ f.source := by
  have hlinks : (g.edges.map Edge.link).Pairwise fun l m => l.source ≤ m.source := by
    rw [h.links_eq]
    apply List.pairwise_flatMap.mpr
    constructor
    · intro b _
      apply List.pairwise_iff_getElem.mpr
      intro j k hj hk _
      have hfirst := linksOf_source _ (List.getElem_mem hj)
      exact Int.le_of_eq (hfirst.trans (linksOf_source _ (List.getElem_mem hk)).symm)
    · apply List.pairwise_iff_getElem.mpr
      intro p q hp hq hpq l hl m hm
      have hfirst := h.wellFormed.tiling.id_eq p _ (List.getElem?_eq_getElem hp)
      have hsecond := h.wellFormed.tiling.id_eq q _ (List.getElem?_eq_getElem hq)
      rw [linksOf_source l hl, linksOf_source m hm, hfirst, hsecond]
      omega
  rw [List.pairwise_map] at hlinks
  exact hlinks

namespace Stream

variable {s : Stream} {leaders : List Int}

theorem eq_layout_of_partition {g : Graph} (h : s.partition leaders = .ok g) :
    s.length ≠ 0 ∧ s.layout leaders = g := by
  by_cases hs : s.length = 0
  · simp [partition, hs] at h
  · rw [partition_eq s leaders hs] at h
    exact ⟨hs, Except.ok.inj h⟩

theorem layout_inStep (hs : s.length ≠ 0) : (s.layout leaders).InStep := by
  obtain ⟨hopen, hblocks⟩ := (Graph.laid_cut s leaders hs).unfrozen
  exact fun b hb => (hblocks b hb).trans hopen.symm

theorem graphOf_mirrored (hs : s.length ≠ 0) : (s.graphOf leaders).Mirrored := by
  have hbare := (Graph.layout_bare s leaders).mirrored
  exact (hbare.grow _ fun l hl => (Graph.laid_cut s leaders hs).target_lt hl).sealed

/-- In a graph that is built, the blocks before a block are found in ascending order. -/
theorem graphOf_predecessors (h : TargetsInside s.instructions) (hend : EndsInExit s.instructions)
    (hleaders : s.leaders = .ok leaders) {b : Int} (hlow : 0 ≤ b)
    (hhigh : b < (s.graphOf leaders).blocks.length) :
    ∃ previous, (s.graphOf leaders).predecessors b = .ok previous ∧
      previous.Pairwise (· < ·) := by
  rw [Graph.predecessors_eq_neighbours]
  refine ⟨_, (graphOf_mirrored (length_ne_zero hend)).neighbours_eq .incoming hlow hhigh, ?_⟩
  have hsources := (graphOf_finished h hend hleaders).sources_ordered
  exact distinct_strict (List.pairwise_map.mpr (hsources.filter _))

end Stream

/-- Edges and lists agree. However the blocks of a partition are joined and marked, and whether or
not the graph is frozen on the way, edges are numbered by position, each is listed once by its
source and once by its target, and lists ascend. So a block comes after another just when the
other comes before it, and just when an edge joins them; both are found without repeats, in the
order of the oldest edges that speak for them. In a graph that is built, the blocks before a block
are ascending too. -/
theorem lists_mirror_edges :
    (∀ (s : Stream) (leaders : List Int) (start : Graph) (edits : List Edit),
      s.partition leaders = .ok start → (∀ e ∈ edits, e.Joins start.blocks.length) →
      ∀ g, Edit.run start edits = g → g.blocks.length = start.blocks.length ∧ g.Numbered ∧
        (∀ side, g.Records side) ∧
        ∀ b c : Int, 0 ≤ b → b < g.blocks.length → 0 ≤ c → c < g.blocks.length →
          ∃ next previous, g.successors b = .ok next ∧ g.predecessors c = .ok previous ∧
            (c ∈ next ↔ b ∈ previous) ∧
            (b ∈ previous ↔ ∃ e ∈ g.edges, e.source = b ∧ e.target = c) ∧
            (next.Nodup ∧ next.Pairwise (g.Earlier .outgoing b)) ∧
            previous.Nodup ∧ previous.Pairwise (g.Earlier .incoming c)) ∧
    ∀ (instructions : List Instruction) (method : Option String) (validate : Bool) (g : Graph),
      buildGraph instructions { method, validate } = .ok g →
        ∀ b : Int, 0 ≤ b → b < g.blocks.length →
        ∃ previous, g.predecessors b = .ok previous ∧ previous.Pairwise (· < ·) := by
  constructor
  · rintro s leaders start edits hstart hedits g rfl
    obtain ⟨hs, rfl⟩ := Stream.eq_layout_of_partition hstart
    obtain ⟨hmirrored, hlength⟩ := Edit.run_mirrored hedits (Stream.layout_inStep hs)
      (Graph.layout_bare s leaders).mirrored
    refine ⟨hlength, hmirrored.numbered, hmirrored.records, ?_⟩
    intro b c hb hb' hc hc'
    obtain ⟨next, hnext, hnodup, horder, hmem⟩ := hmirrored.neighbours_ok .outgoing hb hb'
    obtain ⟨previous, hprevious, hnodup', horder', hmem'⟩ :=
      hmirrored.neighbours_ok .incoming hc hc'
    have hjoined : b ∈ previous ↔ ∃ e ∈ (Edit.run (s.layout leaders) edits).edges,
        e.source = b ∧ e.target = c := by
      rw [hmem']
      simp only [Edge.near, Edge.far, and_comm]
    rw [← Graph.successors_eq_neighbours] at hnext
    rw [← Graph.predecessors_eq_neighbours] at hprevious
    refine ⟨next, previous, hnext, hprevious, ?_, hjoined, ⟨hnodup, horder⟩, hnodup', horder'⟩
    rw [hjoined, hmem]
    rfl
  · intro instructions method validate g hbuild b hlow hhigh
    obtain ⟨s, leaders, rfl, hinside, hend, hleaders, rfl⟩ := eq_graphOf_of_buildGraph hbuild
    exact Stream.graphOf_predecessors hinside hend hleaders hlow hhigh

/-- Two edges side by side, one that leads back to its own block and one that comes too late,
after a mark on a block that is not there and one counted from the end. -/
theorem whileLoop_lists_mirror_edges :
    (∃ start g, Stream.whileLoop.partition [2, 3] = .ok start ∧
      Edit.run start [.addEdge 0 2 .trueBranch, .markTerminal 7, .addEdge 0 0 .fallthrough,
        .markTerminal (-1), .addEdge 0 2 .falseBranch, .freeze, .addEdge 1 2 .fallthrough] = g ∧
      (∀ side, g.Records side) ∧ g.successors 0 = .ok [2, 0] ∧ g.predecessors 2 = .ok [0]) ∧
    ∃ g previous, buildGraph Stream.whileLoop.instructions {} = .ok g ∧
      g.predecessors 2 = .ok previous ∧ previous.Pairwise (· < ·) := by
  constructor
  · obtain ⟨_, _, hrecords, _⟩ := lists_mirror_edges.1 Stream.whileLoop [2, 3] _
      [.addEdge 0 2 .trueBranch, .markTerminal 7, .addEdge 0 0 .fallthrough, .markTerminal (-1),
        .addEdge 0 2 .falseBranch, .freeze, .addEdge 1 2 .fallthrough] rfl
      (by decide) _ rfl
    exact ⟨_, _, rfl, rfl, hrecords, rfl, rfl⟩
  · obtain ⟨previous, hprevious, hascending⟩ :=
      lists_mirror_edges.2 Stream.whileLoop.instructions none true _
      rfl 2 (by decide) (by decide)
    exact ⟨_, previous, rfl, hprevious, hascending⟩

end FlowGraph
