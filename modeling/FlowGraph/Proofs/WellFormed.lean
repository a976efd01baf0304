import FlowGraph.Proofs.Control
import FlowGraph.Proofs.Scans

/-!
Well-formed graphs, and the proof that validation accepts exactly these. A graph is well formed
when its blocks tile the stream, jumps only end blocks, every edge joins existing blocks and is
listed once by each of them, and the edges that leave a block are those its last instruction calls
for. No scan looks for an outgoing edge that is listed twice: the kinds that a last instruction
calls for are all different, so that a repeated edge would repeat a kind.
-/
namespace FlowGraph

/-- A composite computation succeeds only through both of its parts. -/
theorem exists_of_bind_ok {ε α β : Type} {first : Except ε α} {next : α → Except ε β} {result : β}
    (h : first >>= next = .ok result) : ∃ value, first = .ok value ∧ next value = .ok result := by
  cases first with
  | error fault => cases h
  | ok value => exact ⟨value, rfl, h⟩

namespace Graph

def leaving (g : Graph) (b : Int) : List Edge := g.edges.filter fun e => e.source == b

def arriving (g : Graph) (b : Int) : List Edge := g.edges.filter fun e => e.target == b

def JumpsLast (g : Graph) : Prop := ∀ b ∈ g.blocks, ∀ (i : Int) (x : Instruction),
  b.start ≤ i → i < b.lastIndex → g.stream.get? i = some x → x.kind.isJump = false

structure WellFormed (g : Graph) : Prop where
  tiling : Tiling g.blocks g.stream.length
  jumps_last : g.JumpsLast
  endpoints : ∀ e ∈ g.edges, (0 ≤ e.source ∧ e.source < g.blocks.length) ∧
    0 ≤ e.target ∧ e.target < g.blocks.length
  outgoing : ∀ b ∈ g.blocks, b.outgoing.Nodup ∧ b.outgoing.Perm ((g.leaving b.id).map (·.id))
  incoming : ∀ b ∈ g.blocks, b.incoming.Nodup ∧ b.incoming.Perm ((g.arriving b.id).map (·.id))
  exits : ∀ b ∈ g.blocks, ∃ last, g.stream.get? b.lastIndex = some last ∧
    (b.terminal = true ↔ last.kind = .ret ∨ last.kind = .throw) ∧
    ((g.leaving b.id).map (·.kind)).Perm last.kind.control.exitKinds

section Numbered

variable {g : Graph}

theorem Numbered.get?_id (hn : g.Numbered) {e : Edge} (he : e ∈ g.edges) :
    Position.get? g.edges e.id = some e := by
  obtain ⟨k, hk⟩ := List.mem_iff_getElem?.mp he
  rw [hn k e hk, Position.get?_natCast, hk]

theorem Numbered.hasEdge_id (hn : g.Numbered) {e : Edge} (he : e ∈ g.edges) :
    g.hasEdge e.id = true := by
  obtain ⟨k, hk⟩ := List.mem_iff_getElem?.mp he
  have hlt : k < g.edges.length := (List.getElem?_eq_some_iff.mp hk).1
  rw [hasEdge_iff, hn k e hk]
  omega

theorem Numbered.exists_of_hasEdge (hn : g.Numbered) {id : Int} (h : g.hasEdge id = true) :
    ∃ e ∈ g.edges, e.id = id := by
  obtain ⟨hlow, hhigh⟩ := hasEdge_iff.mp h
  obtain ⟨k, rfl⟩ := Int.eq_ofNat_of_zero_le hlow
  have hk : k < g.edges.length := Int.ofNat_lt.mp hhigh
  exact ⟨g.edges[k], List.getElem_mem hk, hn k _ (List.getElem?_eq_getElem hk)⟩

/-- Ids tell the edges of any part of the list apart. -/
theorem Numbered.nodup_ids (hn : g.Numbered) (keep : Edge → Bool) :
    ((g.edges.filter keep).map (·.id)).Nodup := by
  have hall : (g.edges.map (·.id)).Nodup := by
    apply List.pairwise_iff_getElem.mpr
    intro j k hj hk hjk hsame
    rw [List.length_map] at hj hk
    have hfirst := hn j _ (List.getElem?_eq_getElem hj)
    have hsecond := hn k _ (List.getElem?_eq_getElem hk)
    simp only [List.getElem_map] at hsame
    omega
  exact hall.sublist (List.filter_sublist.map _)

def kindAt (g : Graph) (id : Int) : EdgeKind :=
  ((Position.get? g.edges id).map (·.kind)).getD .fallthrough

theorem Numbered.map_kindAt (hn : g.Numbered) (b : Int) :
    ((g.leaving b).map (·.id)).map g.kindAt = (g.leaving b).map (·.kind) := by
  rw [List.map_map]
  apply List.map_congr_left
  intro e he
  simp [kindAt, hn.get?_id (List.mem_filter.mp he).1]

end Numbered

section Exactness

variable {g : Graph} {b : Block}

/-- Where every listed edge exists, the kinds that are compared are those of the listed edges. -/
theorem outgoingKinds_eq_iff (hall : ∀ id ∈ b.outgoing, g.hasEdge id = true) (k : Kind) :
    g.outgoingKinds b = expectedKinds k ↔ (b.outgoing.map g.kindAt).Perm k.control.exitKinds := by
  have hkind : ∀ id, g.hasEdge id = true →
      (Position.get? g.edges id).map (·.kind) = some (g.kindAt id) := by
    intro id hid
    obtain ⟨hlow, hhigh⟩ := hasEdge_iff.mp hid
    obtain ⟨p, rfl⟩ := Int.eq_ofNat_of_zero_le hlow
    have hlt : p < g.edges.length := Int.ofNat_lt.mp hhigh
    simp [kindAt, Position.get?_natCast, hlt]
  have hkinds : (b.outgoing.filter g.hasEdge).filterMap
      (fun e => (Position.get? g.edges e).map (·.kind)) = b.outgoing.map g.kindAt := by
    rw [List.filter_eq_self.mpr hall]
    generalize b.outgoing = ids at hall
    induction ids with
    | nil => rfl
    | cons id ids ih =>
      have hrest := ih fun x hx => hall x (List.mem_cons_of_mem id hx)
      simp [hkind id (hall id List.mem_cons_self), hrest]
  rw [expectedKinds_eq_sort, outgoingKinds, hkinds, sortKinds_eq_iff_perm]

theorem get?_block_id (ht : Tiling g.blocks g.stream.length) (hb : b ∈ g.blocks) :
    Position.get? g.blocks b.id = some b := by
  obtain ⟨p, hid, hp⟩ := ht.getElem?_id hb
  rw [hid, Position.get?_natCast, hp]

theorem hasBlock_id (ht : Tiling g.blocks g.stream.length) (hb : b ∈ g.blocks) :
    g.hasBlock b.id = true := by
  obtain ⟨p, hid, hp⟩ := ht.getElem?_id hb
  have hlt : p < g.blocks.length := (List.getElem?_eq_some_iff.mp hp).1
  rw [hasBlock_iff, hid]
  omega

theorem arrivals_eq {i : Int} (h : g.hasBlock i = true) :
    g.arrivals i = (g.arriving i).map (·.id) := by
  simp [arrivals, arriving, h]

theorem entries_of_tiling (ht : Tiling g.blocks g.stream.length) : g.entries.length = 1 := by
  have htiles := ht.tilesFrom
  unfold entries
  rw [List.length_map]
  cases hblocks : g.blocks with
  | nil => exact absurd hblocks ht.nonempty
  | cons first rest =>
    rw [hblocks] at htiles
    obtain ⟨_, hstart, hlt, hrest⟩ := htiles
    have hlater : rest.filter (fun b => b.start == 0) = [] := by
      apply List.filter_eq_nil_iff.mpr
      intro c hc
      have := (hrest.bounds c hc).1
      simp only [beq_iff_eq]
      omega
    simp [hstart, hlater]

structure Silent (g : Graph) : Prop where
  entry : g.entries.length = 1
  tiles : TilesFrom g.stream.length 0 0 g.blocks
  edges : ∀ e ∈ g.edges,
    (g.hasBlock e.source = true ∧ g.hasBlock e.target = true) ∧ e.id ∈ g.outgoingAt e.source
  lists : ∀ b ∈ g.blocks, g.strayEdges b = [] ∧ b.incoming.Perm (g.arrivals b.id)
  terminators : ∀ b ∈ g.blocks, g.blockViolations b = .ok []

theorem exists_terminators {r : Report} (h : g.validate = .ok r) :
    ∃ found, g.terminatorViolations g.blocks = .ok found ∧ r.violations =
      g.entryViolations ++ g.partitionViolations ++ g.endpointViolations ++ g.listViolations ++
        found := by
  unfold validate at h
  obtain ⟨found, hfound, h⟩ := exists_of_bind_ok h
  refine ⟨found, hfound, ?_⟩
  split at h
  · obtain ⟨dead, _, h⟩ := exists_of_bind_ok h
    cases h
    rfl
  · cases h
    rfl

theorem passed_iff_silent {r : Report} (h : g.validate = .ok r) : r.passed = true ↔ g.Silent := by
  obtain ⟨found, hfound, hviolations⟩ := exists_terminators h
  have hterminators : found = [] ↔ ∀ b ∈ g.blocks, g.blockViolations b = .ok [] := by
    rw [← terminatorViolations_silent_iff, hfound]
    simp
  simp only [Report.passed, hviolations, List.isEmpty_iff, List.append_eq_nil_iff,
    entryViolations_eq_nil_iff, partitionViolations_eq_nil_iff, endpointViolations_eq_nil_iff,
    listViolations_eq_nil_iff, hterminators]
  constructor
  · rintro ⟨⟨⟨⟨hentry, htiles⟩, hedges⟩, hlists⟩, hterm⟩
    exact ⟨hentry, htiles, hedges, hlists, hterm⟩
  · intro hs
    exact ⟨⟨⟨⟨hs.entry, hs.tiles⟩, hs.edges⟩, hs.lists⟩, hs.terminators⟩

namespace Silent

theorem tiling (hs : g.Silent) : Tiling g.blocks g.stream.length := by
  refine tiling_iff_tilesFrom.mpr ⟨?_, hs.tiles⟩
  intro hnil
  have hentry := hs.entry
  simp [entries, hnil] at hentry

theorem jumpsLast (hs : g.Silent) : g.JumpsLast := by
  intro b hb i x hlow hhigh hx
  have hbounds := hs.tiling.bounds hb
  obtain ⟨hinner, _⟩ :=
    (blockViolations_silent_iff hbounds.2.1 hbounds.2.2).mp (hs.terminators b hb)
  obtain ⟨y, hy, hno⟩ := hinner i hlow hhigh
  obtain rfl : x = y := Option.some.inj (hx.symm.trans hy)
  exact hno

theorem exits (hs : g.Silent) (hb : b ∈ g.blocks) :
    ∃ last, g.stream.get? b.lastIndex = some last ∧ b.terminal = last.kind.isTerminal ∧
      (b.outgoing.map g.kindAt).Perm last.kind.control.exitKinds := by
  have hbounds := hs.tiling.bounds hb
  obtain ⟨_, last, hlast, hexit⟩ :=
    (blockViolations_silent_iff hbounds.2.1 hbounds.2.2).mp (hs.terminators b hb)
  obtain ⟨_, hterminal, hkinds⟩ := exitViolation?_eq_none_iff.mp hexit
  have hall : ∀ id ∈ b.outgoing, g.hasEdge id = true :=
    fun id hid => (strayEdges_eq_nil_iff.mp (hs.lists b hb).1 id hid).1
  exact ⟨last, hlast, hterminal, (outgoingKinds_eq_iff hall last.kind).mp hkinds⟩

/-- A block lists exactly the edges that leave it. -/
theorem mem_outgoing_iff (hs : g.Silent) (hn : g.Numbered) (hb : b ∈ g.blocks) (id : Int) :
    id ∈ b.outgoing ↔ id ∈ (g.leaving b.id).map (·.id) := by
  have hstray := strayEdges_eq_nil_iff.mp (hs.lists b hb).1
  constructor
  · intro hid
    obtain ⟨hedge, hsource⟩ := hstray id hid
    obtain ⟨e, he, rfl⟩ := hn.exists_of_hasEdge hedge
    have hleaves : e.source = b.id := hsource e (hn.get?_id he)
    exact List.mem_map.mpr ⟨e, List.mem_filter.mpr ⟨he, by simpa using hleaves⟩, rfl⟩
  · intro hid
    obtain ⟨e, he, rfl⟩ := List.mem_map.mp hid
    obtain ⟨he, hsource⟩ := List.mem_filter.mp he
    have hlisted := (hs.edges e he).2
    rw [show e.source = b.id by simpa using hsource] at hlisted
    simpa [outgoingAt, get?_block_id hs.tiling hb] using hlisted

/-- A block lists no edge twice, since a repeated edge would repeat its kind. -/
theorem nodup_outgoing (hs : g.Silent) (hb : b ∈ g.blocks) : b.outgoing.Nodup := by
  obtain ⟨last, _, _, hperm⟩ := hs.exits hb
  have hdistinct : (b.outgoing.map g.kindAt).Nodup := hperm.nodup_iff.mpr (nodup_exitKinds _)
  exact List.Pairwise.of_map g.kindAt (fun x y hne heq => hne (congrArg g.kindAt heq)) hdistinct

theorem outgoing_perm (hs : g.Silent) (hn : g.Numbered) (hb : b ∈ g.blocks) :
    b.outgoing.Perm ((g.leaving b.id).map (·.id)) :=
  (List.perm_ext_iff_of_nodup (hs.nodup_outgoing hb) (hn.nodup_ids _)).mpr
    (hs.mem_outgoing_iff hn hb)

end Silent

/-- The scans are silent only on well-formed graphs. -/
theorem wellFormed_of_silent (hn : g.Numbered) (hs : g.Silent) : g.WellFormed := by
  constructor
  · exact hs.tiling
  · exact hs.jumpsLast
  · intro e he
    obtain ⟨⟨hsource, htarget⟩, _⟩ := hs.edges e he
    exact ⟨hasBlock_iff.mp hsource, hasBlock_iff.mp htarget⟩
  · intro b hb
    exact ⟨hs.nodup_outgoing hb, hs.outgoing_perm hn hb⟩
  · intro b hb
    have hperm := (hs.lists b hb).2
    rw [arrivals_eq (hasBlock_id hs.tiling hb)] at hperm
    exact ⟨hperm.nodup_iff.mpr (hn.nodup_ids _), hperm⟩
  · intro b hb
    obtain ⟨last, hlast, hterminal, hperm⟩ := hs.exits hb
    refine ⟨last, hlast, by rw [hterminal, isTerminal_iff], ?_⟩
    rw [← hn.map_kindAt]
    exact ((hs.outgoing_perm hn hb).map g.kindAt).symm.trans hperm

namespace WellFormed

theorem exists_of_mem_outgoing (hw : g.WellFormed) (hb : b ∈ g.blocks) {id : Int}
    (hid : id ∈ b.outgoing) : ∃ e ∈ g.edges, e.id = id ∧ e.source = b.id := by
  obtain ⟨e, he, rfl⟩ := List.mem_map.mp ((hw.outgoing b hb).2.mem_iff.mp hid)
  obtain ⟨he, hsource⟩ := List.mem_filter.mp he
  exact ⟨e, he, rfl, by simpa using hsource⟩

theorem id_mem_outgoingAt (hw : g.WellFormed) {e : Edge} (he : e ∈ g.edges) :
    e.id ∈ g.outgoingAt e.source := by
  obtain ⟨hlow, hhigh⟩ := (hw.endpoints e he).1
  obtain ⟨p, hp⟩ := Int.eq_ofNat_of_zero_le hlow
  have hlt : p < g.blocks.length := by omega
  have hb : g.blocks[p] ∈ g.blocks := List.getElem_mem hlt
  have hid : g.blocks[p].id = e.source := by
    rw [hw.tiling.id_eq p _ (List.getElem?_eq_getElem hlt)]
    exact hp.symm
  rw [← hid, outgoingAt, get?_block_id hw.tiling hb]
  apply (hw.outgoing _ hb).2.mem_iff.mpr
  exact List.mem_map.mpr ⟨e, List.mem_filter.mpr ⟨he, by simpa using hid.symm⟩, rfl⟩

theorem strayEdges_eq_nil (hw : g.WellFormed) (hn : g.Numbered) (hb : b ∈ g.blocks) :
    g.strayEdges b = [] := by
  apply strayEdges_eq_nil_iff.mpr
  intro id hid
  obtain ⟨e, he, rfl, hsource⟩ := hw.exists_of_mem_outgoing hb hid
  refine ⟨hn.hasEdge_id he, ?_⟩
  intro e' he'
  obtain rfl : e = e' := Option.some.inj ((hn.get?_id he).symm.trans he')
  exact hsource

theorem exitViolation?_eq_none (hw : g.WellFormed) (hn : g.Numbered) (hb : b ∈ g.blocks) :
    ∃ last, g.stream.get? b.lastIndex = some last ∧ g.exitViolation? b last = none := by
  obtain ⟨last, hlast, hterminal, hkinds⟩ := hw.exits b hb
  have hall : ∀ id ∈ b.outgoing, g.hasEdge id = true := by
    intro id hid
    obtain ⟨e, he, rfl, _⟩ := hw.exists_of_mem_outgoing hb hid
    exact hn.hasEdge_id he
  have hperm : (b.outgoing.map g.kindAt).Perm last.kind.control.exitKinds := by
    have hmap := (hw.outgoing b hb).2.map g.kindAt
    rw [hn.map_kindAt] at hmap
    exact hmap.trans hkinds
  have hlength : b.outgoing.length = (expectedKinds last.kind).length := by
    have hsame := hperm.length_eq
    rw [expectedKinds_eq_sort, sortBy_eq_insertionSort, List.length_insertionSort]
    simpa using hsame
  refine ⟨last, hlast, exitViolation?_eq_none_iff.mpr ⟨hlength, ?_, ?_⟩⟩
  · rw [Bool.eq_iff_iff, hterminal, isTerminal_iff]
  · exact (outgoingKinds_eq_iff hall last.kind).mpr hperm

theorem blockViolations_eq_nil (hw : g.WellFormed) (hn : g.Numbered) (hb : b ∈ g.blocks) :
    g.blockViolations b = .ok [] := by
  have hbounds := hw.tiling.bounds hb
  refine (blockViolations_silent_iff hbounds.2.1 hbounds.2.2).mpr
    ⟨?_, hw.exitViolation?_eq_none hn hb⟩
  intro i hlow hhigh
  have hinside : i < g.stream.length := by
    unfold Block.lastIndex at hhigh
    omega
  obtain ⟨_, x, _, _, hx⟩ := Stream.exists_get? (show 0 ≤ i by omega) hinside
  exact ⟨x, hx, hw.jumps_last b hb i x hlow hhigh hx⟩

end WellFormed

/-- Nothing is found in a well-formed graph. -/
theorem silent_of_wellFormed (hn : g.Numbered) (hw : g.WellFormed) : g.Silent := by
  constructor
  · exact entries_of_tiling hw.tiling
  · exact hw.tiling.tilesFrom
  · intro e he
    obtain ⟨hsource, htarget⟩ := hw.endpoints e he
    exact ⟨⟨hasBlock_iff.mpr hsource, hasBlock_iff.mpr htarget⟩, hw.id_mem_outgoingAt he⟩
  · intro b hb
    refine ⟨hw.strayEdges_eq_nil hn hb, ?_⟩
    rw [arrivals_eq (hasBlock_id hw.tiling hb)]
    exact (hw.incoming b hb).2
  · intro b hb
    exact hw.blockViolations_eq_nil hn hb

/-- A report on a graph whose edges carry their positions as ids passes exactly when the graph is
well formed. -/
theorem validate_passed_iff_wellFormed (hn : g.Numbered) {r : Report} (h : g.validate = .ok r) :
    r.passed = true ↔ g.WellFormed := by
  constructor
  · intro hpassed
    exact wellFormed_of_silent hn ((passed_iff_silent h).mp hpassed)
  · intro hw
    exact (passed_iff_silent h).mpr (silent_of_wellFormed hn hw)

end Exactness

/-- The graph of the loop, with a given list of edges that leave its first block. -/
def loopWith (outgoing : List Int) : Graph where
  stream := Stream.whileLoop
  blocks :=
    [{ id := 0, start := 0, stop := 2, outgoing, incoming := [2] },
      { id := 1, start := 2, stop := 3, outgoing := [2], incoming := [1] },
      { id := 2, start := 3, stop := 4, incoming := [0], terminal := true }]
  edges := Link.number 0 [⟨0, 2, .trueBranch⟩, ⟨0, 1, .falseBranch⟩, ⟨1, 0, .fallthrough⟩]
  table := [(0, 0), (2, 1), (3, 2)]

theorem loopWith_numbered (outgoing : List Int) : (loopWith outgoing).Numbered :=
  fun _ _ he => by simpa using Link.number_id he

/-- The loop is well formed when its first block lists both branches, in either order, and is not
when it lists one of them twice. -/
theorem loopWith_wellFormed : (loopWith [1, 0]).WellFormed ∧ ¬ (loopWith [0, 0]).WellFormed := by
  constructor
  · exact (validate_passed_iff_wellFormed (loopWith_numbered _) rfl).mp rfl
  · intro hw
    have hpassed := (validate_passed_iff_wellFormed (loopWith_numbered _) rfl).mpr hw
    cases hpassed

end Graph

end FlowGraph
