import FlowGraph.Graph.Reach
import FlowGraph.Proofs.Lookup
import Mathlib.Data.List.Perm.Subperm
import Mathlib.Logic.Relation

/-!
The search for reachable blocks. Where every edge that a block lists exists and every edge leads
to a block, no look-up on the way of the search can fail once it has found its first block, and
what it finds are the blocks that edges lead to from there in any number of steps. An id enters
the queue once, and besides the entry only targets of edges enter it, so the steps that are
allowed for are enough: the search without a bound ends by itself, after one turn for each block
found.
-/
namespace FlowGraph

theorem mapM_ok {α β : Type} {f : α → Except Fault β} (xs : List α)
    (h : ∀ x ∈ xs, ∃ y, f x = .ok y) :
    ∃ ys, xs.mapM f = .ok ys ∧ ∀ y, y ∈ ys ↔ ∃ x ∈ xs, f x = .ok y := by
  induction xs with
  | nil => exact ⟨[], rfl, by simp⟩
  | cons x xs ih =>
    obtain ⟨y, hy⟩ := h x List.mem_cons_self
    obtain ⟨ys, hys, hmem⟩ := ih fun z hz => h z (List.mem_cons_of_mem x hz)
    refine ⟨y :: ys, ?_, ?_⟩
    · rw [List.mapM_cons, hy, hys]
      rfl
    · intro z
      simp [hmem, hy, eq_comm]

theorem mapM_eq_map {α β : Type} {f : α → Except Fault β} {value : α → β} (xs : List α)
    (h : ∀ x ∈ xs, f x = .ok (value x)) : xs.mapM f = .ok (xs.map value) := by
  induction xs with
  | nil => rfl
  | cons x xs ih =>
    have hrest := ih fun z hz => h z (List.mem_cons_of_mem x hz)
    rw [List.mapM_cons, h x List.mem_cons_self, hrest]
    rfl

namespace Graph

def Follows (g : Graph) (b c : Int) : Prop :=
  ∃ block id e, g.block b = .ok block ∧ id ∈ block.outgoing ∧ g.edge id = .ok e ∧ e.target = c

structure Navigable (g : Graph) : Prop where
  listed : ∀ b ∈ g.blocks, ∀ id ∈ b.outgoing, ∃ e, g.edge id = .ok e
  targets : ∀ e ∈ g.edges, ∃ b, g.block e.target = .ok b

variable {g : Graph} {entry : Int}

theorem edge_eq_ok_iff {id : Int} {e : Edge} :
    g.edge id = .ok e ↔ Position.get? g.edges id = some e := by
  unfold edge
  cases Position.get? g.edges id <;> simp

theorem mem_of_edge {id : Int} {e : Edge} (h : g.edge id = .ok e) : e ∈ g.edges :=
  Position.mem_of_get? (edge_eq_ok_iff.mp h)

/-- The successors of an existing block are found, each of them once. -/
theorem Navigable.successors_ok (hn : g.Navigable) {b : Int} {block : Block}
    (hblock : g.block b = .ok block) :
    ∃ next, g.successors b = .ok next ∧ next.Nodup ∧ ∀ c, c ∈ next ↔ g.Follows b c := by
  obtain ⟨found, hfound, hmem⟩ := mapM_ok (f := g.edge) block.outgoing
    (hn.listed block (mem_of_block hblock))
  refine ⟨distinct (found.map (·.target)), ?_, nodup_distinct _, ?_⟩
  · simp [successors, edgesOf, hblock, Block.edges, bind, Except.bind, hfound]
  · intro c
    simp only [mem_distinct, List.mem_map, hmem]
    constructor
    · rintro ⟨e, ⟨id, hid, he⟩, htarget⟩
      exact ⟨block, id, e, hblock, hid, he, htarget⟩
    · rintro ⟨block', id, e, hblock', hid, he, htarget⟩
      obtain rfl : block = block' := Except.ok.inj (hblock.symm.trans hblock')
      exact ⟨e, ⟨id, hid, he⟩, htarget⟩

theorem Navigable.exists_block (hn : g.Navigable) {block : Block}
    (hentry : g.block entry = .ok block) {c : Int}
    (hreach : Relation.ReflTransGen g.Follows entry c) : ∃ b, g.block c = .ok b := by
  rcases Relation.ReflTransGen.cases_tail hreach with rfl | ⟨_, _, _, _, e, _, _, he, rfl⟩
  · exact ⟨block, hentry⟩
  · exact hn.targets e (mem_of_edge he)

theorem mem_targets_of_reach {c : Int} (hreach : Relation.ReflTransGen g.Follows entry c) :
    c ∈ entry :: g.edges.map (·.target) := by
  rcases Relation.ReflTransGen.cases_tail hreach with rfl | ⟨_, _, _, _, e, _, _, he, rfl⟩
  · exact List.mem_cons_self
  · exact List.mem_cons_of_mem _ (List.mem_map_of_mem (mem_of_edge he))

/-- What the search keeps as it works off its queue: it has seen blocks that can be reached, and
of those that have left the queue also all that they lead to. Each step takes one block from the
queue. -/
structure Frontier (g : Graph) (entry : Int) (fuel : Nat) (queue seen : List Int) : Prop where
  entry_seen : entry ∈ seen
  queue_seen : ∀ c ∈ queue, c ∈ seen
  nodup : seen.Nodup
  reached : ∀ c ∈ seen, Relation.ReflTransGen g.Follows entry c
  closed : ∀ c ∈ seen, c ∈ queue ∨ ∀ d, g.Follows c d → d ∈ seen
  fuel_eq : fuel + seen.length = g.edges.length + 2 + queue.length

namespace Frontier

variable {fuel : Nat} {b : Int} {queue seen next : List Int}

theorem start (g : Graph) (entry : Int) :
    Frontier g entry (g.edges.length + 2) [entry] [entry] where
  entry_seen := List.mem_singleton_self entry
  queue_seen := fun _ hc => hc
  nodup := List.pairwise_singleton _ entry
  reached := by
    intro c hc
    obtain rfl : c = entry := List.mem_singleton.mp hc
    exact .refl
  closed := fun _ hc => Or.inl hc
  fuel_eq := rfl

/-- The successors of the first block in the queue go to its end, except for those seen before. -/
theorem step (h : Frontier g entry (fuel + 1) (b :: queue) seen) (hnodup : next.Nodup)
    (hnext : ∀ c, c ∈ next ↔ g.Follows b c) :
    Frontier g entry fuel (queue ++ next.filter (· ∉ seen)) (seen ++ next.filter (· ∉ seen)) where
  entry_seen := List.mem_append_left _ h.entry_seen
  queue_seen := by
    intro c hc
    rcases List.mem_append.mp hc with hc | hc
    · exact List.mem_append_left _ (h.queue_seen c (List.mem_cons_of_mem b hc))
    · exact List.mem_append_right _ hc
  nodup := by
    refine List.nodup_append.mpr ⟨h.nodup, hnodup.sublist List.filter_sublist, ?_⟩
    rintro c hc d hd rfl
    have hfresh := (List.mem_filter.mp hd).2
    simp [hc] at hfresh
  reached := by
    intro c hc
    rcases List.mem_append.mp hc with hc | hc
    · exact h.reached c hc
    · have hb := h.reached b (h.queue_seen b List.mem_cons_self)
      exact hb.tail ((hnext c).mp (List.mem_filter.mp hc).1)
  closed := by
    intro c hc
    rcases List.mem_append.mp hc with hc | hc
    · by_cases hcb : c = b
      · -- The block has just left the queue, and each of its successors is seen now or was
        -- before.
        subst hcb
        right
        intro d hd
        by_cases hseen : d ∈ seen
        · exact List.mem_append_left _ hseen
        · exact List.mem_append_right _
            (List.mem_filter.mpr ⟨(hnext d).mpr hd, by simpa using hseen⟩)
      · rcases h.closed c hc with hqueue | hdone
        · exact Or.inl (List.mem_append_left _ ((List.mem_cons.mp hqueue).resolve_left hcb))
        · exact Or.inr fun d hd => List.mem_append_left _ (hdone d hd)
    · exact Or.inl (List.mem_append_right _ hc)
  fuel_eq := by
    have hfuel := h.fuel_eq
    simp only [List.length_cons, List.length_append] at hfuel ⊢
    omega

theorem length_seen_le (h : Frontier g entry fuel queue seen) :
    seen.length ≤ g.edges.length + 1 := by
  have hsubset : seen ⊆ entry :: g.edges.map (·.target) := fun c hc =>
    mem_targets_of_reach (h.reached c hc)
  simpa using (h.nodup.subperm hsubset).length_le

/-- With an empty queue everything that can be reached has been seen. -/
theorem mem_iff_of_nil (h : Frontier g entry fuel [] seen) (c : Int) :
    c ∈ seen ↔ Relation.ReflTransGen g.Follows entry c := by
  constructor
  · exact h.reached c
  · intro hreach
    induction hreach with
    | refl => exact h.entry_seen
    | tail _ hfollows ih => exact (h.closed _ ih).resolve_left List.not_mem_nil _ hfollows

end Frontier

/-- The search with no bound on its turns. Each turn takes the first block from the queue and puts
its successors at the end, except for those seen before; the search is over when the queue is
empty. -/
inductive Sweeps (g : Graph) : Nat → List Int → List Int → List Int → Prop
  | done (seen : List Int) : Sweeps g 0 [] seen seen
  | turn {turns : Nat} {b : Int} {queue seen next found : List Int}
      (hnext : g.successors b = .ok next)
      (hrest : Sweeps g turns (queue ++ next.filter (· ∉ seen))
        (seen ++ next.filter (· ∉ seen)) found) :
      Sweeps g (turns + 1) (b :: queue) seen found

namespace Sweeps

variable {turns fuel : Nat} {queue seen found : List Int}

/-- Turns that are left over when the queue is empty are not taken. -/
theorem explore_eq (h : g.Sweeps turns queue seen found) (hfuel : turns ≤ fuel) :
    g.explore fuel queue seen = .ok found := by
  induction h generalizing fuel with
  | done seen => cases fuel <;> rfl
  | @turn turns b queue seen next found hnext _ ih =>
    obtain ⟨rest, rfl⟩ : ∃ rest, fuel = rest + 1 := ⟨fuel - 1, by omega⟩
    simp only [explore, hnext, bind, Except.bind, ih (Nat.le_of_succ_le_succ hfuel)]

/-- Every block that is queued, now or later, takes one turn. -/
theorem turns_eq (h : g.Sweeps turns queue seen found) :
    found.length + queue.length = seen.length + turns := by
  induction h with
  | done seen => rfl
  | turn _ _ ih =>
    simp only [List.length_append, List.length_cons] at ih ⊢
    omega

end Sweeps

/-- A search whose look-ups cannot fail comes to an end within the turns that are allowed for. -/
theorem Navigable.exists_sweeps (hn : g.Navigable) {block : Block}
    (hentry : g.block entry = .ok block) (fuel : Nat) (queue seen : List Int)
    (h : Frontier g entry fuel queue seen) :
    ∃ turns found, turns ≤ fuel ∧ g.Sweeps turns queue seen found ∧ found.Nodup ∧
      ∀ c, c ∈ found ↔ Relation.ReflTransGen g.Follows entry c := by
  induction fuel generalizing queue seen with
  | zero =>
    -- More blocks would have left the queue than there are targets of edges.
    have hfuel := h.fuel_eq
    have hseen := h.length_seen_le
    omega
  | succ fuel ih =>
    cases queue with
    | nil => exact ⟨0, seen, Nat.zero_le _, .done seen, h.nodup, h.mem_iff_of_nil⟩
    | cons b queue =>
      obtain ⟨block', hblock'⟩ :=
        hn.exists_block hentry (h.reached b (h.queue_seen b List.mem_cons_self))
      obtain ⟨next, hnext, hnodup, hmem⟩ := hn.successors_ok hblock'
      obtain ⟨turns, found, hturns, hsweeps, hexact⟩ := ih _ _ (h.step hnodup hmem)
      exact ⟨turns + 1, found, Nat.succ_le_succ hturns, .turn hnext hsweeps, hexact⟩

/-- From an entry that is the id of a block, the search ends after one turn for each block it
finds. -/
theorem Navigable.sweeps_entry (hn : g.Navigable) {block : Block}
    (hblock : g.block entry = .ok block) :
    ∃ found, g.Sweeps found.length [entry] [entry] found ∧
      g.explore (g.edges.length + 2) [entry] [entry] = .ok found ∧ found.Nodup ∧
      ∀ c, c ∈ found ↔ Relation.ReflTransGen g.Follows entry c := by
  obtain ⟨turns, found, hturns, hsweeps, hexact⟩ :=
    hn.exists_sweeps hblock _ _ _ (Frontier.start g entry)
  obtain rfl : turns = found.length := by
    have hlength := hsweeps.turns_eq
    simp only [List.length_singleton] at hlength
    omega
  exact ⟨found, hsweeps, hsweeps.explore_eq hturns, hexact⟩

/-- From an entry that is the id of a block, the search finds exactly what edges lead to. -/
theorem Navigable.reachable_ok (hn : g.Navigable) {block : Block} (hentry : g.entry = .ok entry)
    (hblock : g.block entry = .ok block) : ∃ live, g.reachable = .ok live ∧
      ∀ c, c ∈ live ↔ Relation.ReflTransGen g.Follows entry c := by
  obtain ⟨live, _, hlive, _, hexact⟩ := hn.sweeps_entry hblock
  exact ⟨live, by simp only [reachable, hentry, bind, Except.bind, hlive], hexact⟩

theorem unreachable_eq {live : List Int} (h : g.reachable = .ok live) :
    g.unreachable = .ok ((g.blocks.map (·.id)).filter (· ∉ live)) := by
  simp only [unreachable, h, bind, Except.bind]

/-- An entry that is not the id of a block ends the search at once. -/
theorem unreachable_of_stranded {fault : Fault} (hentry : g.entry = .ok entry)
    (hblock : g.block entry = .error fault) : g.unreachable = .error fault := by
  simp only [unreachable, reachable, hentry, explore, successors, edgesOf, hblock, bind,
    Except.bind]

theorem Navigable.unreachable_ok_iff (hn : g.Navigable) : (∃ dead, g.unreachable = .ok dead) ↔
    ∃ c b, g.entry = .ok c ∧ g.block c = .ok b := by
  constructor
  · rintro ⟨dead, hdead⟩
    cases hentry : g.entry with
    | error fault => simp [unreachable, reachable, hentry, bind, Except.bind] at hdead
    | ok c =>
      cases hblock : g.block c with
      | error fault => simp [unreachable_of_stranded hentry hblock] at hdead
      | ok b => exact ⟨c, b, rfl, hblock⟩
  · rintro ⟨c, b, hentry, hblock⟩
    obtain ⟨live, hlive, _⟩ := hn.reachable_ok hentry hblock
    exact ⟨_, unreachable_eq hlive⟩

/-- A graph that can be searched: ids are positions, the table of starts leads from zero to a
block, blocks list edges that exist, and edges lead to blocks that exist. Lists may repeat an edge
and edges may form any cycle. -/
structure Searchable (g : Graph) : Prop where
  id_eq : ∀ (p : Nat) (b : Block), g.blocks[p]? = some b → b.id = p
  starts : ∃ b ∈ g.blocks, g.startingAt? 0 = some b.id
  listed : ∀ b ∈ g.blocks, ∀ id ∈ b.outgoing, 0 ≤ id ∧ id < g.edges.length
  targets : ∀ e ∈ g.edges, 0 ≤ e.target ∧ e.target < g.blocks.length

/-- In a table that is up to date some block starts at an index just when one is found for it. -/
theorem exists_startingAt?_iff (hu : g.UpToDate) {i : Int} :
    (∃ b ∈ g.blocks, g.startingAt? i = some b.id) ↔ ∃ b ∈ g.blocks, b.start = i := by
  constructor
  · intro h
    obtain ⟨b, _, hfound⟩ := h
    obtain ⟨c, hc, hstart, _⟩ := exists_of_startingAt? hu hfound
    exact ⟨c, hc, hstart⟩
  · intro h
    obtain ⟨b, hb, hstart⟩ := h
    cases hfound : g.startingAt? i with
    | none => exact absurd hstart ((startingAt?_eq_none_iff hu).mp hfound b hb)
    | some c =>
      obtain ⟨d, hd, _, hid⟩ := exists_of_startingAt? hu hfound
      exact ⟨d, hd, by rw [hid]⟩

namespace Searchable

theorem navigable (h : g.Searchable) : g.Navigable where
  listed := by
    intro b hb id hid
    have hrange := h.listed b hb id hid
    simp only [edge_eq_ok_iff, Position.exists_get?_iff]
    omega
  targets := by
    intro e he
    have hrange := h.targets e he
    rw [exists_block_iff]
    omega

theorem block_id (h : g.Searchable) {b : Block} (hb : b ∈ g.blocks) : g.block b.id = .ok b := by
  obtain ⟨p, hp⟩ := List.mem_iff_getElem?.mp hb
  rw [h.id_eq p b hp]
  exact block_natCast hp

theorem entry_eq (h : g.Searchable) : ∃ b ∈ g.blocks, g.entry = .ok b.id := by
  obtain ⟨b, hb, hstart⟩ := h.starts
  exact ⟨b, hb, by simp [entry, hstart]⟩

theorem mem_ids (h : g.Searchable) {c : Int} :
    c ∈ g.blocks.map (·.id) ↔ 0 ≤ c ∧ c < g.blocks.length := by
  rw [List.mem_map]
  constructor
  · intro hc
    obtain ⟨b, hb, hid⟩ := hc
    obtain ⟨p, hp⟩ := List.mem_iff_getElem?.mp hb
    have hlt : p < g.blocks.length := (List.getElem?_eq_some_iff.mp hp).1
    have := h.id_eq p b hp
    omega
  · intro hc
    obtain ⟨p, hp⟩ := Int.eq_ofNat_of_zero_le hc.1
    have hget : g.blocks[p]? = some g.blocks[p] := List.getElem?_eq_getElem (by omega)
    exact ⟨g.blocks[p], List.mem_of_getElem? hget, by rw [h.id_eq p _ hget, hp]⟩

theorem ids_ascending (h : g.Searchable) : (g.blocks.map (·.id)).Pairwise (· < ·) := by
  apply List.pairwise_map.mpr
  apply List.pairwise_iff_getElem.mpr
  intro p q hp hq hpq
  have hfirst := h.id_eq p _ (List.getElem?_eq_getElem hp)
  have hsecond := h.id_eq q _ (List.getElem?_eq_getElem hq)
  omega

/-- Only ids of blocks can be reached. -/
theorem mem_ids_of_reach (h : g.Searchable) {b : Block} (hb : b ∈ g.blocks) {c : Int}
    (hreach : Relation.ReflTransGen g.Follows b.id c) : c ∈ g.blocks.map (·.id) := by
  rcases List.mem_cons.mp (mem_targets_of_reach hreach) with hsame | htarget
  · rw [hsame]
    exact List.mem_map_of_mem hb
  · obtain ⟨e, he, rfl⟩ := List.mem_map.mp htarget
    exact h.mem_ids.mpr (h.targets e he)

end Searchable

/-- The search comes to an end, after one turn for each block that it finds, and finds exactly the
blocks that outgoing edges lead to from the entry in any number of steps. The other blocks are
listed by ascending id. -/
theorem search_exact (g : Graph) (h : g.Searchable) : ∃ entry live dead, g.entry = .ok entry ∧
    g.reachable = .ok live ∧ g.Sweeps live.length [entry] [entry] live ∧
    live.Nodup ∧ live.length ≤ g.blocks.length ∧
    (∀ c, c ∈ live ↔ Relation.ReflTransGen g.Follows entry c) ∧
    g.unreachable = .ok dead ∧ dead.Pairwise (· < ·) ∧
    ∀ c, c ∈ dead ↔ (0 ≤ c ∧ c < g.blocks.length) ∧
      ¬ Relation.ReflTransGen g.Follows entry c := by
  obtain ⟨first, hfirst, hentry⟩ := h.entry_eq
  obtain ⟨live, hsweeps, hexplore, hnodup, hexact⟩ := h.navigable.sweeps_entry (h.block_id hfirst)
  have hlive : g.reachable = .ok live := by
    simp only [reachable, hentry, bind, Except.bind, hexplore]
  have hblocks : live ⊆ g.blocks.map (·.id) := fun c hc =>
    h.mem_ids_of_reach hfirst ((hexact c).mp hc)
  refine ⟨first.id, live, _, hentry, hlive, hsweeps, hnodup, ?_, hexact, unreachable_eq hlive,
    h.ids_ascending.filter _, ?_⟩
  · simpa using (hnodup.subperm hblocks).length_le
  · intro c
    rw [List.mem_filter, h.mem_ids, ← hexact]
    simp

/-- Three blocks, of which the second is the entry. It leads to itself, and along two edges to the
first, which leads back; both list an edge twice. Nothing leads to the third. -/
def tangle : Graph where
  stream := Stream.whileLoop
  blocks :=
    [{ id := 0, start := 2, stop := 3, outgoing := [1, 1] },
      { id := 1, start := 0, stop := 2, outgoing := [0, 3, 2, 0] },
      { id := 2, start := 3, stop := 4, outgoing := [4] }]
  edges :=
    [⟨0, 1, 0, .trueBranch⟩, ⟨1, 0, 1, .fallthrough⟩, ⟨2, 1, 1, .fallthrough⟩,
      ⟨3, 1, 0, .falseBranch⟩, ⟨4, 2, 0, .fallthrough⟩]
  table := [(2, 0), (0, 1), (3, 2)]

theorem tangle_searchable : tangle.Searchable where
  id_eq
    | 0, _, rfl => rfl
    | 1, _, rfl => rfl
    | 2, _, rfl => rfl
  starts := (exists_startingAt?_iff (show tangle.UpToDate from rfl)).mpr (by decide)
  listed := by decide
  targets := by decide

theorem tangle_search_exact : tangle.reachable = .ok [1, 0] ∧ tangle.Sweeps 2 [1] [1] [1, 0] ∧
    tangle.unreachable = .ok [2] ∧ Relation.ReflTransGen tangle.Follows 1 0 ∧
    ¬ Relation.ReflTransGen tangle.Follows 1 2 := by
  obtain ⟨entry, live, dead, hentry, hlive, hsweeps, _, _, hexact, hdead, _, hrest⟩ :=
    search_exact tangle tangle_searchable
  obtain rfl : 1 = entry := Except.ok.inj hentry
  obtain rfl : [1, 0] = live := Except.ok.inj hlive
  obtain rfl : [2] = dead := Except.ok.inj hdead
  exact ⟨hlive, hsweeps, hdead, (hexact 0).mp (by decide), ((hrest 2).mp (by decide)).2⟩

end Graph

end FlowGraph
