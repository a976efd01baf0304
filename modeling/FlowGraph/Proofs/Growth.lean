import FlowGraph.Graph.Edit
import FlowGraph.Proofs.Lookup
import Mathlib.Data.Int.CharZero

/-!
Growth of a graph. Joining blocks that exist and marking blocks that exist only ever adds: new
edges take the next numbers, the blocks they join list them, and marks stay. A whole sequence of
such edits is therefore one growth by the links and marks it is made of, and everything about a
grown graph can be read off those two lists.
-/
namespace FlowGraph

/-- An edge without its number. -/
structure Link where
  source : Int
  target : Int
  kind : EdgeKind
  deriving DecidableEq, Repr

def Edge.link (e : Edge) : Link := ⟨e.source, e.target, e.kind⟩

namespace Link

def number : Nat → List Link → List Edge
  | _, [] => []
  | n, l :: rest => ⟨n, l.source, l.target, l.kind⟩ :: number (n + 1) rest

theorem number_append (n : Nat) (first second : List Link) :
    number n (first ++ second) = number n first ++ number (n + first.length) second := by
  induction first generalizing n with
  | nil => rfl
  | cons l rest ih => simp [number, ih, Nat.add_assoc, Nat.add_comm 1]

@[simp] theorem length_number (n : Nat) (links : List Link) :
    (number n links).length = links.length := by
  induction links generalizing n with
  | nil => rfl
  | cons l rest ih => simp [number, ih]

@[simp] theorem map_link_number (n : Nat) (links : List Link) :
    (number n links).map Edge.link = links := by
  induction links generalizing n with
  | nil => rfl
  | cons l rest ih => simp [number, Edge.link, ih]

theorem number_id {n k : Nat} {links : List Link} {e : Edge} (h : (number n links)[k]? = some e) :
    e.id = (n + k : Nat) := by
  induction links generalizing n k with
  | nil => simp [number] at h
  | cons l rest ih =>
    cases k with
    | zero =>
      obtain rfl : _ = e := by simpa [number] using h
      rfl
    | succ k =>
      have := @ih (n + 1) k (by simpa [number] using h)
      omega

end Link

def Block.gain (edges : List Edge) (marks : List Int) (p : Nat) (b : Block) : Block :=
  { b with
    outgoing := b.outgoing ++ (edges.filter fun e => e.source == (p : Int)).map (·.id)
    incoming := b.incoming ++ (edges.filter fun e => e.target == (p : Int)).map (·.id)
    terminal := b.terminal || marks.contains (p : Int) }

theorem Block.gain_gain (first second : List Edge) (marks marks' : List Int) (p : Nat)
    (b : Block) :
    (b.gain first marks p).gain second marks' p =
      b.gain (first ++ second) (marks ++ marks') p := by
  simp [gain, Bool.or_assoc]

theorem Block.gain_nil (p : Nat) (b : Block) : b.gain [] [] p = b := by
  simp [gain]

namespace Graph

def grow (g : Graph) (links : List Link) (marks : List Int) : Graph :=
  { g with
    edges := g.edges ++ Link.number g.edges.length links
    blocks := g.blocks.mapIdx (Block.gain (Link.number g.edges.length links) marks) }

def Open (g : Graph) : Prop := g.frozen = false ∧ ∀ b ∈ g.blocks, b.frozen = false

def Numbered (g : Graph) : Prop := ∀ (k : Nat) (e : Edge), g.edges[k]? = some e → e.id = k

section Grow

variable (g : Graph) (links : List Link) (marks : List Int)

@[simp] theorem grow_stream : (g.grow links marks).stream = g.stream := rfl

@[simp] theorem length_grow_blocks : (g.grow links marks).blocks.length = g.blocks.length := by
  simp [grow]

theorem grow_edges :
    (g.grow links marks).edges = g.edges ++ Link.number g.edges.length links := rfl

theorem getElem?_grow_blocks (p : Nat) : (g.grow links marks).blocks[p]? =
    g.blocks[p]?.map (Block.gain (Link.number g.edges.length links) marks p) := by
  simp [grow]

theorem grow_nil : g.grow [] [] = g := by
  have hblocks : g.blocks.mapIdx (Block.gain [] []) = g.blocks := by
    apply List.ext_getElem?
    intro p
    cases hp : g.blocks[p]? <;> simp [hp, Block.gain_nil]
  simp [grow, Link.number, hblocks]

/-- Two growths in a row are one. -/
theorem grow_grow (links' : List Link) (marks' : List Int) :
    (g.grow links marks).grow links' marks' = g.grow (links ++ links') (marks ++ marks') := by
  have hedges : Link.number g.edges.length (links ++ links') =
      Link.number g.edges.length links ++
        Link.number (g.edges ++ Link.number g.edges.length links).length links' := by
    rw [Link.number_append, List.length_append, Link.length_number]
  have hblocks : ((g.blocks.mapIdx (Block.gain (Link.number g.edges.length links) marks)).mapIdx
      (Block.gain (Link.number (g.edges ++ Link.number g.edges.length links).length links')
        marks')) =
        g.blocks.mapIdx (Block.gain (Link.number g.edges.length (links ++ links'))
          (marks ++ marks')) := by
    apply List.ext_getElem?
    intro p
    cases hp : g.blocks[p]? <;> simp [hp, hedges, Block.gain_gain]
  simp only [grow, hblocks, hedges, List.append_assoc]

variable {g}

theorem grow_open (h : g.Open) : (g.grow links marks).Open := by
  refine ⟨h.1, ?_⟩
  intro b hb
  obtain ⟨p, hp⟩ := List.mem_iff_getElem?.mp hb
  rw [getElem?_grow_blocks] at hp
  obtain ⟨old, hold, rfl⟩ := Option.map_eq_some_iff.mp hp
  exact h.2 old (List.mem_of_getElem? hold)

theorem grow_numbered (h : g.Numbered) : (g.grow links marks).Numbered := by
  intro k e he
  rw [grow_edges] at he
  by_cases hk : k < g.edges.length
  · rw [List.getElem?_append_left hk] at he
    exact h k e he
  · rw [List.getElem?_append_right (by omega)] at he
    have := Link.number_id he
    omega

/-- Growth leaves ids, starts and stops alone, so the blocks still tile what they tiled. -/
theorem grow_tiling {length : Nat} (h : Tiling g.blocks length) :
    Tiling (g.grow links marks).blocks length := by
  apply h.of_same_extents (length_grow_blocks g links marks)
  intro p b hb
  rw [getElem?_grow_blocks] at hb
  obtain ⟨old, hold, rfl⟩ := Option.map_eq_some_iff.mp hb
  exact ⟨old, hold, rfl, rfl, rfl⟩

theorem grow_upToDate (h : g.UpToDate) : (g.grow links marks).UpToDate := by
  have hblocks : (g.grow links marks).blocks.map (fun b => (b.start, b.id)) =
      g.blocks.map fun b => (b.start, b.id) := by
    apply List.ext_getElem?
    intro p
    rw [List.getElem?_map, List.getElem?_map, getElem?_grow_blocks, Option.map_map]
    rfl
  rw [UpToDate, hblocks]
  exact h

end Grow

section Edits

variable {g : Graph}

theorem updateBlock_natCast {p : Nat} {f : Block → Except Fault Block} {change : Block → Block}
    (hp : p < g.blocks.length) (hf : ∀ b, g.blocks[p]? = some b → f b = .ok (change b)) :
    g.updateBlock (p : Int) f = .ok { g with blocks := g.blocks.modify p change } := by
  have hget : g.blocks[p]? = some g.blocks[p] := List.getElem?_eq_getElem hp
  have hset : g.blocks.set p (change g.blocks[p]) = g.blocks.modify p change := by
    apply List.ext_getElem?
    intro k
    rw [List.getElem?_modify]
    by_cases hk : p = k
    · subst hk
      simp [hp]
    · simp [hk]
  simp only [updateBlock, Position.resolve?_natCast hp, hget, hf _ hget, hset]

/-- Listing an edge at its two ends, which may be one block, is what the blocks gain from it. -/
theorem modify_modify_eq_gain (blocks : List Block) (p q : Nat) (id : Int) (kind : EdgeKind) :
    (blocks.modify p fun b => b.withEdges .outgoing (b.outgoing ++ [id])).modify q
      (fun b => b.withEdges .incoming (b.incoming ++ [id])) =
        blocks.mapIdx (Block.gain [⟨id, p, q, kind⟩] []) := by
  apply List.ext_getElem?
  intro k
  rw [List.getElem?_mapIdx, List.getElem?_modify, List.getElem?_modify]
  cases blocks[k]? with
  | none => simp
  | some b =>
    by_cases hp : p = k <;> by_cases hq : q = k <;>
      simp [hp, hq, Block.gain, Block.withEdges]

/-- Joining two blocks that exist is growth by one link. -/
theorem addEdge_eq_grow (h : g.Open) {p q : Nat} (hp : p < g.blocks.length)
    (hq : q < g.blocks.length) (kind : EdgeKind) :
    g.addEdge p q kind =
      (.ok ⟨g.edges.length, p, q, kind⟩, g.grow [⟨p, q, kind⟩] []) := by
  let edge : Edge := ⟨g.edges.length, p, q, kind⟩
  let listed : Graph := { g with edges := g.edges ++ [edge] }
  let left : Graph := { listed with
    blocks := g.blocks.modify p fun b => b.withEdges .outgoing (b.outgoing ++ [edge.id]) }
  have hleft : listed.updateBlock p (Block.append .outgoing edge.id) = .ok left := by
    apply updateBlock_natCast (g := listed) hp
    intro b hb
    simp [Block.append, h.2 b (List.mem_of_getElem? hb), Block.edges]
  have hjoined : left.updateBlock q (Block.append .incoming edge.id) = .ok { left with
      blocks := left.blocks.modify q fun b =>
        b.withEdges .incoming (b.incoming ++ [edge.id]) } := by
    apply updateBlock_natCast (g := left) (by simpa [left, listed] using hq)
    intro b hb
    have hopen : b.frozen = false := by
      rw [List.getElem?_modify] at hb
      obtain ⟨old, hold, rfl⟩ := Option.map_eq_some_iff.mp hb
      have := h.2 old (List.mem_of_getElem? hold)
      split <;> exact this
    simp [Block.append, hopen, Block.edges]
  have hblocks := modify_modify_eq_gain g.blocks p q edge.id kind
  have hfrozen : ¬ g.frozen = true := by simp [h.1]
  simp only [edge, listed, left] at hleft hjoined hblocks
  simp only [addEdge, if_neg hfrozen, hleft, hjoined, hblocks, grow, Link.number]

theorem markTerminal_eq_grow (h : g.Open) {p : Nat} (hp : p < g.blocks.length) :
    g.markTerminal p = (.ok (), g.grow [] [(p : Int)]) := by
  have hassign : g.updateBlock p (Block.assign (.terminal true)) =
      .ok { g with blocks := g.blocks.modify p fun b => { b with terminal := true } } := by
    apply updateBlock_natCast hp
    intro b hb
    exact Block.set_eq_ok_iff.mpr ⟨h.2 b (List.mem_of_getElem? hb), rfl⟩
  have hblocks : (g.blocks.modify p fun b => { b with terminal := true }) =
      g.blocks.mapIdx (Block.gain [] [(p : Int)]) := by
    apply List.ext_getElem?
    intro k
    rw [List.getElem?_mapIdx, List.getElem?_modify]
    cases g.blocks[k]? with
    | none => simp
    | some b =>
      by_cases hk : p = k
      · simp [hk, Block.gain]
      · have hkp : ¬ k = p := Ne.symm hk
        simp [hk, hkp, Block.gain]
  have hfrozen : ¬ g.frozen = true := by simp [h.1]
  simp only [markTerminal, if_neg hfrozen, hassign, commit, hblocks, grow, Link.number,
    List.append_nil]

def sealed (g : Graph) : Graph :=
  { g with blocks := g.blocks.map fun b => { b with frozen := true }, frozen := true }

theorem freeze_eq_sealed (h : g.Open) : g.freeze = (.ok (), g.sealed) := by
  have hblocks : ∀ blocks : List Block, (∀ b ∈ blocks, b.frozen = false) →
      freezeBlocks blocks = (.ok (), blocks.map fun b => { b with frozen := true }) := by
    intro blocks hblocks
    induction blocks with
    | nil => rfl
    | cons b rest ih =>
      have hb : b.frozen = false := hblocks b List.mem_cons_self
      have hrest := ih fun c hc => hblocks c (List.mem_cons_of_mem b hc)
      simp [freezeBlocks, Block.freeze_eq_ok_iff.mpr ⟨hb, rfl⟩, hrest]
  simp [freeze, h.1, hblocks g.blocks h.2, sealed]

theorem sealed_tiling {length : Nat} (h : Tiling g.blocks length) :
    Tiling g.sealed.blocks length := by
  apply h.of_same_extents (List.length_map _)
  intro p b hb
  rw [List.getElem?_map] at hb
  obtain ⟨old, hold, rfl⟩ := Option.map_eq_some_iff.mp hb
  exact ⟨old, hold, rfl, rfl, rfl⟩

theorem sealed_upToDate (h : g.UpToDate) : g.sealed.UpToDate := by
  have hblocks : g.sealed.blocks.map (fun b => (b.start, b.id)) =
      g.blocks.map fun b => (b.start, b.id) := by
    simp [sealed]
  rw [UpToDate, hblocks]
  exact h

end Edits

end Graph

end FlowGraph
