import FlowGraph.Proofs.Exits
import FlowGraph.Proofs.LeaderSet
import FlowGraph.Proofs.Partition
import Mathlib.Algebra.BigOperators.Group.List.Basic
import Mathlib.Algebra.GroupWithZero.Nat
import Mathlib.Data.List.Perm.Basic

/-!
How many edges a graph has. A branch always ends its block, so the branches of a stream can be
counted block by block, and so can the edges, each of which leaves one block. Every block
balances: if it ends in a branch it has an edge of either branch kind, and otherwise it is an exit
or has one edge that goes on. The sums over all blocks tie the numbers of edges of each kind to
the numbers of blocks, branches and exits.
-/
namespace FlowGraph

def branches (instructions : List Instruction) : Nat :=
  instructions.countP fun x => x.kind == .conditionalJump

/-- Sorting a list by keys loses nothing and adds nothing, if every key of a member is looked for
once. -/
theorem flatMap_filter_perm {α : Type} (key : α → Int) {ids : List Int} (hids : ids.Nodup)
    {xs : List α} (hxs : ∀ x ∈ xs, key x ∈ ids) :
    (ids.flatMap fun i => xs.filter fun x => key x == i).Perm xs := by
  induction ids generalizing xs with
  | nil =>
    have hnil : xs = [] := List.eq_nil_iff_forall_not_mem.mpr fun x hx => by simpa using hxs x hx
    rw [hnil]
    exact .refl _
  | cons i rest ih =>
    obtain ⟨hfresh, hrest⟩ := List.nodup_cons.mp hids
    -- The members with other keys are the ones that the rest of the keys looks for.
    have hkeys : ∀ x ∈ xs.filter fun x => !(key x == i), key x ∈ rest := by
      intro x hx
      obtain ⟨hx, hne⟩ := List.mem_filter.mp hx
      rcases List.mem_cons.mp (hxs x hx) with hsame | hin
      · simp [hsame] at hne
      · exact hin
    have hothers := ih hrest hkeys
    have hsame :
        (rest.flatMap fun j => (xs.filter fun x => !(key x == i)).filter fun x => key x == j) =
          rest.flatMap fun j => xs.filter fun x => key x == j := by
      apply List.flatMap_congr
      intro j hj
      rw [List.filter_filter]
      apply List.filter_congr
      intro x _
      have hne : j ≠ i := fun h => hfresh (h ▸ hj)
      by_cases hkey : key x = j
      · simp [hkey, hne]
      · simp [hkey]
    rw [hsame] at hothers
    exact (hothers.append_left _).trans (List.filter_append_perm _ xs)

theorem sum_toNat_eq_countP {α : Type} (marked : α → Bool) (xs : List α) :
    (xs.map fun x => (marked x).toNat).sum = xs.countP marked := by
  induction xs with
  | nil => rfl
  | cons x xs ih =>
    rw [List.map_cons, List.sum_cons, ih, List.countP_cons, Nat.add_comm]
    cases marked x <;> rfl

namespace Position

/-- A slice that takes in one more element ends with it. -/
theorem slice_succ {α : Type} {xs : List α} {start : Int} {p : Nat} {x : α} (hlow : 0 ≤ start)
    (hle : start ≤ p) (hx : xs[p]? = some x) :
    slice xs start (p + 1 : Nat) = slice xs start p ++ [x] := by
  have hp : p < xs.length := (List.getElem?_eq_some_iff.mp hx).1
  rw [slice_eq hlow (by omega) (by omega), slice_eq hlow hle (by omega), Int.toNat_natCast,
    Int.toNat_natCast, List.take_add_one, hx, Option.toList_some, List.drop_append_of_le_length]
  rw [List.length_take]
  omega

theorem exists_of_mem_slice {α : Type} {xs : List α} {start stop : Int} {x : α} (hlow : 0 ≤ start)
    (hle : start ≤ stop) (hhigh : stop ≤ xs.length) (hx : x ∈ slice xs start stop) :
    ∃ p : Nat, start ≤ p ∧ p < stop ∧ xs[p]? = some x := by
  rw [slice_eq hlow hle hhigh] at hx
  obtain ⟨k, hk⟩ := List.mem_iff_getElem?.mp hx
  rw [List.getElem?_drop] at hk
  have hlt : start.toNat + k < stop.toNat := by
    have := (List.getElem?_eq_some_iff.mp hk).1
    rw [List.length_take] at this
    omega
  rw [List.getElem?_take_of_lt hlt] at hk
  exact ⟨start.toNat + k, by omega, by omega, hk⟩

end Position

theorem Tiling.mem_ids {blocks : List Block} {length : Nat} (ht : Tiling blocks length) {i : Int}
    (hlow : 0 ≤ i) (hhigh : i < blocks.length) : i ∈ blocks.map (·.id) := by
  obtain ⟨p, rfl⟩ := Int.eq_ofNat_of_zero_le hlow
  have hp : p < blocks.length := Int.ofNat_lt.mp hhigh
  have hid := ht.id_eq p _ (List.getElem?_eq_getElem hp)
  exact List.mem_map.mpr ⟨_, List.getElem_mem hp, hid⟩

namespace Graph

def edgesOfKind (g : Graph) (kind : EdgeKind) : Nat := g.edges.countP fun e => e.kind == kind

def leavingOfKind (g : Graph) (b : Block) (kind : EdgeKind) : Nat :=
  (g.leaving b.id).countP fun e => e.kind == kind

def branchesIn (g : Graph) (b : Block) : Nat := branches (g.stream.slice b.start b.stop)

variable {g : Graph} {b : Block}

theorem length_edges (g : Graph) : g.edges.length =
    g.edgesOfKind .trueBranch + g.edgesOfKind .falseBranch + g.edgesOfKind .fallthrough := by
  unfold edgesOfKind
  induction g.edges with
  | nil => rfl
  | cons e rest ih =>
    rw [List.length_cons, ih]
    cases hkind : e.kind <;> simp [hkind] <;> omega

theorem length_exits (g : Graph) :
    g.exits.length = (g.blocks.map fun b => b.terminal.toNat).sum := by
  rw [exits, List.length_map, ← List.countP_eq_length_filter, sum_toNat_eq_countP]

namespace WellFormed

/-- The edges are those that leave the blocks, taken block by block. -/
theorem leaving_perm (hw : g.WellFormed) :
    (g.blocks.flatMap fun b => g.leaving b.id).Perm g.edges := by
  have hsources : ∀ e ∈ g.edges, e.source ∈ g.blocks.map (·.id) := by
    intro e he
    obtain ⟨⟨hlow, hhigh⟩, _⟩ := hw.endpoints e he
    exact hw.tiling.mem_ids hlow hhigh
  have hperm := flatMap_filter_perm Edge.source hw.tiling.nodup_ids hsources
  rw [List.flatMap_map] at hperm
  exact hperm

theorem edgesOfKind_eq_sum (hw : g.WellFormed) (kind : EdgeKind) :
    g.edgesOfKind kind = (g.blocks.map fun b => g.leavingOfKind b kind).sum := by
  unfold edgesOfKind
  rw [← hw.leaving_perm.countP_eq, List.countP_flatMap]
  rfl

theorem branches_eq_sum (hw : g.WellFormed) :
    branches g.stream.instructions = (g.blocks.map g.branchesIn).sum := by
  have hslices : (g.blocks.map fun b => g.stream.slice b.start b.stop).flatten =
      g.stream.instructions.drop (0 : Int).toNat :=
    TilesFrom.flatten_slices hw.tiling.tilesFrom (Int.le_refl 0)
  rw [Int.toNat_zero, List.drop_zero] at hslices
  unfold branches
  rw [← hslices, List.countP_flatten, List.map_map]
  rfl

/-- Only the last instruction of a block can be a branch. -/
theorem branchesIn_eq (hw : g.WellFormed) (hb : b ∈ g.blocks) {last : Instruction}
    (hlast : g.stream.get? b.lastIndex = some last) :
    g.branchesIn b = if last.kind = .conditionalJump then 1 else 0 := by
  obtain ⟨hlow, hlt, hhigh⟩ := hw.tiling.bounds hb
  obtain ⟨p, x, hp, hx⟩ := exists_last_position hw.tiling hb
  obtain rfl : x = last := by
    rw [hp, Stream.get?_natCast, hx] at hlast
    exact Option.some.inj hlast
  have hstop : b.stop = (p + 1 : Nat) := by
    unfold Block.lastIndex at hp
    omega
  have hend : (p : Int) ≤ g.stream.instructions.length :=
    Int.ofNat_le.mpr (Nat.le_of_lt (Stream.lt_length hx))
  have hinner : branches (Position.slice g.stream.instructions b.start p) = 0 := by
    apply List.countP_eq_zero.mpr
    intro y hy
    obtain ⟨q, hstart, hq, hget⟩ := Position.exists_of_mem_slice hlow (by omega) hend hy
    have hno := hw.jumps_last b hb q y hstart (by omega) (by rw [Stream.get?_natCast, hget])
    intro hbranch
    rw [eq_of_beq hbranch] at hno
    cases hno
  unfold branches at hinner
  rw [branchesIn, Stream.slice, hstop, Position.slice_succ hlow (by omega) hx, branches,
    List.countP_append, hinner, List.countP_singleton]
  simp

/-- A block with a branch has one edge of either branch kind. Of a branch, the mark of an exit and
an edge that goes on it has exactly one. -/
theorem balance (hw : g.WellFormed) (hb : b ∈ g.blocks) :
    g.leavingOfKind b .trueBranch = g.branchesIn b ∧
    g.leavingOfKind b .falseBranch = g.branchesIn b ∧
      g.leavingOfKind b .fallthrough + g.branchesIn b + b.terminal.toNat = 1 := by
  obtain ⟨last, hlast, hterminal, hkinds⟩ := hw.exits b hb
  have hcount : ∀ kind, g.leavingOfKind b kind = last.kind.control.exitKinds.count kind := by
    intro kind
    rw [← hkinds.count_eq, List.count_eq_countP, List.countP_map]
    rfl
  have hmark : b.terminal = last.kind.isTerminal := by
    rw [Bool.eq_iff_iff, hterminal, isTerminal_iff]
  rw [hcount, hcount, hcount, hw.branchesIn_eq hb hlast, hmark]
  cases last.kind <;> decide

/-- The counts of a well-formed graph. -/
theorem counts (hw : g.WellFormed) :
    g.edgesOfKind .trueBranch = branches g.stream.instructions ∧
    g.edgesOfKind .falseBranch = branches g.stream.instructions ∧
    g.edgesOfKind .fallthrough + branches g.stream.instructions + g.exits.length =
      g.blocks.length := by
  rw [hw.edgesOfKind_eq_sum, hw.edgesOfKind_eq_sum, hw.edgesOfKind_eq_sum, hw.branches_eq_sum,
    length_exits, ← List.sum_map_add, ← List.sum_map_add]
  refine ⟨congrArg List.sum ?_, congrArg List.sum ?_, ?_⟩
  · exact List.map_congr_left fun b hb => (hw.balance hb).1
  · exact List.map_congr_left fun b hb => (hw.balance hb).2.1
  · rw [List.map_congr_left fun b hb => (hw.balance hb).2.2]
    simp

theorem exits_ne_nil (hw : g.WellFormed) (hend : EndsInExit g.stream.instructions) :
    g.exits ≠ [] := by
  obtain ⟨last, hlast, hexit⟩ := hend
  have hlength : g.stream.length ≠ 0 := Stream.length_ne_zero ⟨last, hlast, hexit⟩
  obtain ⟨b, hb, hlow, hhigh⟩ :=
    hw.tiling.exists_block (i := (g.stream.length - 1 : Nat)) (by omega) (by omega)
  have hindex : b.lastIndex = (g.stream.length - 1 : Nat) :=
    (hw.tiling.lastIndex_eq_iff hb hlow hhigh).mpr (.inl (by omega))
  have hread : g.stream.get? b.lastIndex = some last := by
    rw [hindex, Stream.get?_natCast, ← hlast, List.getLast?_eq_getElem?]
    rfl
  have hends := (hw.endsMethod_iff hb hread).mpr hexit
  exact List.ne_nil_of_mem ((hw.mem_exits_iff hb).mpr hends)

end WellFormed

end Graph

theorem Stream.length_graphOf_blocks (s : Stream) (leaders : List Int) :
    (s.graphOf leaders).blocks.length = (s.blockStarts leaders).length := by
  have hcut := congrArg List.length (cutBlocks_starts s.length 0 (s.blockStarts leaders))
  rw [List.length_map] at hcut
  rw [← hcut, graphOf, Graph.sealed, List.length_map, Graph.wired, Graph.length_grow_blocks]
  rfl

/-- The graph of a method has a block for each leader and at least one exit. For each branch it
has an edge for when it is taken and one for when it is not; every other block that is no exit has
one edge that goes on. -/
theorem buildGraph_counts {instructions : List Instruction} {method : Option String}
    {validate : Bool} {g : Graph} (h : buildGraph instructions { method, validate } = .ok g) :
    g.edgesOfKind .trueBranch = branches instructions ∧
    g.edgesOfKind .falseBranch = branches instructions ∧
    (g.edgesOfKind .fallthrough : Int) =
      g.blocks.length - branches instructions - g.exits.length ∧
    (g.edges.length : Int) = g.blocks.length + branches instructions - g.exits.length ∧
    (∃ leaders, g.stream.leaders = .ok leaders ∧ g.blocks.length = leaders.length) ∧
    g.stream.instructions = instructions ∧ 1 ≤ g.exits.length := by
  obtain ⟨s, leaders, rfl, hinside, hend, hleaders, rfl⟩ := eq_graphOf_of_buildGraph h
  have hw := Stream.graphOf_wellFormed hinside hend hleaders
  obtain ⟨htrue, hfalse, hrest⟩ := hw.counts
  have hedges := (s.graphOf leaders).length_edges
  have hexits := List.length_pos_of_ne_nil (hw.exits_ne_nil hend)
  have hblocks := s.length_graphOf_blocks leaders
  rw [Stream.blockStarts_leaders (Stream.length_ne_zero hend) hinside hleaders] at hblocks
  have hstream : (s.graphOf leaders).stream = s := rfl
  rw [hstream] at htrue hfalse hrest
  exact ⟨htrue, hfalse, by omega, by omega, ⟨leaders, hleaders, hblocks⟩, rfl, hexits⟩

/-- The loop with its one branch: three blocks, one exit, three edges. -/
theorem whileLoop_counts : ∃ g, buildGraph Stream.whileLoop.instructions {} = .ok g ∧
    g.blocks.length = 3 ∧ g.exits.length = 1 ∧ g.edgesOfKind .trueBranch = 1 ∧
    g.edgesOfKind .falseBranch = 1 ∧ g.edgesOfKind .fallthrough = 1 ∧ g.edges.length = 3 := by
  have hbuild : buildGraph Stream.whileLoop.instructions {} =
      .ok (Stream.whileLoop.graphOf [0, 2, 3]) := rfl
  obtain ⟨htrue, hfalse, hrest, hedges, _⟩ := @buildGraph_counts _ none true _ hbuild
  have hblocks : (Stream.whileLoop.graphOf [0, 2, 3]).blocks.length = 3 := rfl
  have hexits : (Stream.whileLoop.graphOf [0, 2, 3]).exits.length = 1 := rfl
  have hbranches : branches Stream.whileLoop.instructions = 1 := rfl
  exact ⟨_, hbuild, hblocks, hexits, by omega, by omega, by omega, by omega⟩

end FlowGraph
