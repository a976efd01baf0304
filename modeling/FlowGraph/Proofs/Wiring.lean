import FlowGraph.Proofs.Connect
import FlowGraph.Proofs.Reach

/-!
Connecting the blocks of a partition. The edges that leave a block of the connected graph are the
links the block contributes, one for each demand of its last instruction. A partition whose
demands are all met and whose jumps all end blocks therefore connects to a well-formed graph.
-/
namespace FlowGraph

def Stream.layout (s : Stream) (leaders : List Int) : Graph := Graph.ofBlocks s (s.cut leaders)

theorem Tiling.nodup_ids {blocks : List Block} {length : Nat} (ht : Tiling blocks length) :
    (blocks.map (·.id)).Nodup := by
  apply List.pairwise_iff_getElem.mpr
  intro p q hp hq hpq hsame
  rw [List.length_map] at hp hq
  have hfirst := ht.id_eq p _ (List.getElem?_eq_getElem hp)
  have hsecond := ht.id_eq q _ (List.getElem?_eq_getElem hq)
  simp only [List.getElem_map] at hsame
  omega

/-- Of what the blocks contribute, the part that carries the id of one block is its own. -/
theorem filter_flatMap_own {α : Type} {blocks : List Block} {contribution : Block → List α}
    (owner : α → Int) (hids : (blocks.map (·.id)).Nodup)
    (howner : ∀ b, ∀ x ∈ contribution b, owner x = b.id) {b : Block} (hb : b ∈ blocks) :
    (blocks.flatMap contribution).filter (fun x => owner x == b.id) = contribution b := by
  have hself : (contribution b).filter (fun x => owner x == b.id) = contribution b :=
    List.filter_eq_self.mpr fun x hx => by simp [howner b x hx]
  have hother : ∀ c : Block, c.id ≠ b.id →
      (contribution c).filter (fun x => owner x == b.id) = [] := by
    intro c hc
    apply List.filter_eq_nil_iff.mpr
    intro x hx
    simp [howner c x hx, hc]
  induction blocks with
  | nil => simp at hb
  | cons c rest ih =>
    obtain ⟨hfresh, hrest⟩ := List.nodup_cons.mp hids
    rw [List.flatMap_cons, List.filter_append]
    rcases List.mem_cons.mp hb with rfl | hb
    · have hlater : (rest.flatMap contribution).filter (fun x => owner x == b.id) = [] := by
        rw [List.filter_flatMap]
        apply List.flatMap_eq_nil_iff.mpr
        intro d hd
        apply hother d
        intro hsame
        exact hfresh (List.mem_map.mpr ⟨d, hd, hsame⟩)
      rw [hself, hlater, List.append_nil]
    · have hne : c.id ≠ b.id := by
        intro hsame
        exact hfresh (List.mem_map.mpr ⟨b, hb, hsame.symm⟩)
      rw [hother c hne, List.nil_append, ih hrest hb]

namespace Graph

structure Bare (g : Graph) : Prop where
  edges_eq : g.edges = []
  block_eq : ∀ b ∈ g.blocks, b = { id := b.id, start := b.start, stop := b.stop }

variable {g : Graph} {b : Block}

theorem layout_bare (s : Stream) (leaders : List Int) : (s.layout leaders).Bare :=
  ⟨rfl, cutBlocks_bare _ _ _⟩

theorem linksOf_source : ∀ l ∈ g.linksOf b, l.source = b.id := by
  intro l hl
  obtain ⟨d, _, hd⟩ := List.mem_filterMap.mp hl
  obtain ⟨target, _, rfl⟩ := Option.map_eq_some_iff.mp hd
  rfl

theorem marksOf_eq : ∀ i ∈ g.marksOf b, i = b.id := by
  intro i hi
  unfold marksOf at hi
  split at hi
  · split at hi <;> simp_all
  · simp at hi

/-- A link stands for a demand and the block that starts where it leads. -/
theorem mem_linksOf {l : Link} : l ∈ g.linksOf b ↔
    ∃ d ∈ g.demandsOf b, l.source = b.id ∧ l.kind = d.2 ∧ g.startingAt? d.1 = some l.target := by
  unfold linksOf
  rw [List.mem_filterMap]
  constructor
  · rintro ⟨d, hd, hl⟩
    obtain ⟨target, htarget, rfl⟩ := Option.map_eq_some_iff.mp hl
    exact ⟨d, hd, rfl, rfl, htarget⟩
  · rintro ⟨d, hd, hsource, hkind, htarget⟩
    refine ⟨d, hd, ?_⟩
    rw [htarget, Option.map_some, ← hsource, ← hkind]

theorem map_kind_linksOf (hmet : g.Met b) :
    (g.linksOf b).map (·.kind) = (g.demandsOf b).map (·.2) := by
  unfold Met at hmet
  unfold linksOf
  generalize g.demandsOf b = demands at hmet
  induction demands with
  | nil => rfl
  | cons d rest ih =>
    obtain ⟨target, htarget⟩ := Option.ne_none_iff_exists'.mp (hmet d List.mem_cons_self)
    have hrest := ih fun x hx => hmet x (List.mem_cons_of_mem d hx)
    simp [htarget, hrest]

theorem map_kind_demandsOf {last : Instruction} (hlast : g.stream.get? b.lastIndex = some last) :
    (g.demandsOf b).map (·.2) = last.kind.control.exitKinds := by
  cases hcontrol : last.kind.control <;>
    simp [demandsOf, hlast, Instruction.demands, hcontrol, Control.exitKinds]

theorem Bare.wired_edges (h : g.Bare) :
    g.wired.edges = Link.number 0 (g.blocks.flatMap g.linksOf) := by
  rw [wired, grow_edges, h.edges_eq]
  rfl

theorem Bare.wired_numbered (h : g.Bare) : g.wired.Numbered := by
  apply grow_numbered
  intro k e he
  simp [h.edges_eq] at he

/-- The edges that leave a block of the connected graph are the links it contributes. -/
theorem Bare.map_link_leaving (h : g.Bare) (ht : Tiling g.blocks g.stream.length)
    (hb : b ∈ g.blocks) :
    (g.wired.leaving b.id).map Edge.link = g.linksOf b := by
  have hown := filter_flatMap_own Link.source ht.nodup_ids
    (fun c => linksOf_source (g := g) (b := c)) hb
  rw [← Link.map_link_number 0 (g.blocks.flatMap g.linksOf), List.filter_map,
    ← h.wired_edges] at hown
  exact hown

/-- The blocks that leave marks are those that end in a leaving instruction. -/
theorem mem_marks_iff (ht : Tiling g.blocks g.stream.length) {done : List Block}
    (hdone : ∀ c ∈ done, c ∈ g.blocks) (hb : b ∈ g.blocks) {last : Instruction}
    (hlast : g.stream.get? b.lastIndex = some last) :
    b.id ∈ done.flatMap g.marksOf ↔ b ∈ done ∧ last.kind.isTerminal = true := by
  rw [List.mem_flatMap]
  constructor
  · rintro ⟨c, hc, hmark⟩
    have hsame : b.id = c.id := marksOf_eq b.id hmark
    obtain ⟨p, hp, hget⟩ := ht.getElem?_id hb
    obtain ⟨q, hq, hget'⟩ := ht.getElem?_id (hdone c hc)
    obtain rfl : p = q := by omega
    obtain rfl : b = c := Option.some.inj (hget.symm.trans hget')
    by_cases hterminal : last.kind.isTerminal = true
    · exact ⟨hc, hterminal⟩
    · simp [marksOf, hlast, hterminal] at hmark
  · intro hmarked
    exact ⟨b, hmarked.1, by simp [marksOf, hlast, hmarked.2]⟩

/-- A block of the connected graph is a block of the partition with what it has gained. -/
theorem exists_of_mem_wired {c : Block} (hc : c ∈ g.wired.blocks) : ∃ (p : Nat) (b : Block),
    g.blocks[p]? = some b ∧ c = b.gain (Link.number g.edges.length (g.blocks.flatMap g.linksOf))
      (g.blocks.flatMap g.marksOf) p := by
  obtain ⟨p, hp⟩ := List.mem_iff_getElem?.mp hc
  rw [wired, getElem?_grow_blocks] at hp
  obtain ⟨b, hb, rfl⟩ := Option.map_eq_some_iff.mp hp
  exact ⟨p, b, hb, rfl⟩

theorem Laid.target_lt (h : g.Laid) {l : Link} (hl : l ∈ g.blocks.flatMap g.linksOf) :
    (0 ≤ l.source ∧ l.source < g.blocks.length) ∧ 0 ≤ l.target ∧ l.target < g.blocks.length := by
  obtain ⟨b, hb, hl⟩ := List.mem_flatMap.mp hl
  obtain ⟨d, _, hsource, _, htarget⟩ := mem_linksOf.mp hl
  obtain ⟨p, hid, hp⟩ := h.tiling.getElem?_id hb
  have hplt : p < g.blocks.length := (List.getElem?_eq_some_iff.mp hp).1
  obtain ⟨q, hq, hqlt⟩ := startingAt?_lt h.tiling h.upToDate htarget
  omega

/-- After connecting, a block lists the edges that touch it, in order of creation. -/
theorem Bare.wired_lists (h : g.Bare) (ht : Tiling g.blocks g.stream.length) {c : Block}
    (hc : c ∈ g.wired.blocks) : c.outgoing = (g.wired.leaving c.id).map (·.id) ∧
      c.incoming = (g.wired.arriving c.id).map (·.id) := by
  obtain ⟨p, b, hp, rfl⟩ := exists_of_mem_wired hc
  have hid : b.id = p := ht.id_eq p b hp
  rw [h.block_eq b (List.mem_of_getElem? hp), leaving, arriving, h.wired_edges, h.edges_eq, hid]
  exact ⟨rfl, rfl⟩

theorem Laid.wired_endpoints (h : g.Laid) (hbare : g.Bare) {e : Edge} (he : e ∈ g.wired.edges) :
    (0 ≤ e.source ∧ e.source < g.wired.blocks.length) ∧
      0 ≤ e.target ∧ e.target < g.wired.blocks.length := by
  have hlink : e.link ∈ g.blocks.flatMap g.linksOf := by
    rw [hbare.wired_edges] at he
    rw [← Link.map_link_number 0 (g.blocks.flatMap g.linksOf)]
    exact List.mem_map_of_mem he
  have hends := h.target_lt hlink
  rw [← length_grow_blocks g (g.blocks.flatMap g.linksOf) (g.blocks.flatMap g.marksOf)] at hends
  exact hends

theorem Laid.wired_exits (h : g.Laid) (hbare : g.Bare) (hmet : ∀ b ∈ g.blocks, g.Met b)
    {c : Block} (hc : c ∈ g.wired.blocks) :
    ∃ last, g.wired.stream.get? c.lastIndex = some last ∧
      (c.terminal = true ↔ last.kind = .ret ∨ last.kind = .throw) ∧
      ((g.wired.leaving c.id).map (·.kind)).Perm last.kind.control.exitKinds := by
  obtain ⟨p, b, hp, rfl⟩ := exists_of_mem_wired hc
  have hb := List.mem_of_getElem? hp
  have hid : b.id = p := h.tiling.id_eq p b hp
  obtain ⟨last, hlast⟩ := h.exists_last hb
  refine ⟨last, hlast, ?_, ?_⟩
  · have hmark := mem_marks_iff h.tiling (fun _ hc => hc) hb hlast
    rw [hid, isTerminal_iff, and_iff_right hb] at hmark
    rw [← hmark, hbare.block_eq b hb]
    simp [Block.gain]
  · have hlinks := congrArg (List.map (·.kind)) (hbare.map_link_leaving h.tiling hb)
    rw [List.map_map, map_kind_linksOf (hmet b hb), map_kind_demandsOf hlast] at hlinks
    exact List.Perm.of_eq hlinks

/-- A partition that meets all demands and ends a block at every jump connects to a well-formed
graph. -/
theorem Laid.wired_wellFormed (h : g.Laid) (hbare : g.Bare) (hmet : ∀ b ∈ g.blocks, g.Met b)
    (hjumps : g.JumpsLast) : g.wired.WellFormed := by
  have hnumbered := hbare.wired_numbered
  constructor
  · exact grow_tiling _ _ h.tiling
  · intro c hc i x hlow hhigh hx
    obtain ⟨p, b, hp, rfl⟩ := exists_of_mem_wired hc
    exact hjumps b (List.mem_of_getElem? hp) i x hlow hhigh hx
  · intro e he
    exact h.wired_endpoints hbare he
  · intro c hc
    rw [(hbare.wired_lists h.tiling hc).1]
    exact ⟨hnumbered.nodup_ids _, List.Perm.refl _⟩
  · intro c hc
    rw [(hbare.wired_lists h.tiling hc).2]
    exact ⟨hnumbered.nodup_ids _, List.Perm.refl _⟩
  · intro c hc
    exact h.wired_exits hbare hmet hc

theorem WellFormed.jumpsLast_of_wired (hw : g.wired.WellFormed) : g.JumpsLast := by
  intro b hb i x hlow hhigh hx
  obtain ⟨p, hp⟩ := List.mem_iff_getElem?.mp hb
  have hgrown : g.wired.blocks[p]? = some
      (b.gain (Link.number g.edges.length (g.blocks.flatMap g.linksOf))
        (g.blocks.flatMap g.marksOf) p) := by
    rw [wired, getElem?_grow_blocks, hp]
    rfl
  exact hw.jumps_last _ (List.mem_of_getElem? hgrown) i x hlow hhigh hx

end Graph

end FlowGraph
