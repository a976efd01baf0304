import FlowGraph.Proofs.Verdict

/-!
What a report says about the lists of incoming edges. Every scan reports violations of its own
invariants only, so one scan alone speaks of these lists. It blames a block just when the block
lists some edge more or less often than the edge arrives there. The edges that it then names are
found in another way, by whether they occur and not by how often: an edge that is missing or
foreign is always named, and one that arrives and is listed twice never is. So the names are
complete when no arriving edge is listed twice, and there are none at all when the only fault is
that some are.
-/
namespace FlowGraph

def Violation.BlamesIncoming (v : Violation) (b : Block) : Prop :=
  v.invariant = .incomingMirror ∧ v.blocks = [b.id]

namespace Graph

def Placed (g : Graph) : Prop := ∀ (p : Nat) (b : Block), g.blocks[p]? = some b → b.id = p

def Arrives (g : Graph) (b : Block) (id : Int) : Prop :=
  ∃ e ∈ g.edges, e.target = b.id ∧ e.id = id

/-- The block does not list the id as often as there are edges with it that lead to the block. -/
def Miscounted (g : Graph) (b : Block) (id : Int) : Prop :=
  b.incoming.count id ≠ ((g.arriving b.id).map (·.id)).count id

variable {g : Graph} {b : Block} {v : Violation}

section Invariants

theorem invariant_of_mem_entryViolations (hv : v ∈ g.entryViolations) :
    v.invariant = .singleEntry := by
  simp only [entryViolations] at hv
  split at hv
  · cases hv
  · rw [List.mem_singleton.mp hv]

theorem invariant_of_mem_walkBlocks {position : Nat} {expected : Int} {blocks : List Block}
    (hv : v ∈ (walkBlocks position expected blocks).1) : v.invariant = .partition := by
  induction blocks generalizing position expected with
  | nil => cases hv
  | cons b rest ih =>
    rcases List.mem_append.mp hv with hhere | hlater
    · exact (of_mem_placeViolations hhere).1
    · exact ih hlater

theorem invariant_of_mem_partitionViolations (hv : v ∈ g.partitionViolations) :
    v.invariant = .partition := by
  simp only [partitionViolations] at hv
  split at hv
  · exact invariant_of_mem_walkBlocks hv
  · rcases List.mem_append.mp hv with hwalk | hend
    · exact invariant_of_mem_walkBlocks hwalk
    · rw [List.mem_singleton.mp hend]

theorem invariant_of_mem_endpointViolations (hv : v ∈ g.endpointViolations) :
    v.invariant = .edgeEndpoints := by
  obtain ⟨e, _, he⟩ := List.mem_filterMap.mp hv
  unfold endpointViolation? at he
  split at he
  · rw [← Option.some.inj he]
  · split at he
    · rw [← Option.some.inj he]
    · cases he

theorem invariant_of_strayViolation? (hv : g.strayViolation? b = some v) :
    v.invariant = .edgeEndpoints := by
  simp only [strayViolation?] at hv
  split at hv
  · cases hv
  · rw [← Option.some.inj hv]

theorem invariant_of_innerJumps {count : Nat} {index : Int} {found : List Violation}
    (h : g.innerJumps b count index = .ok found) (hv : v ∈ found) :
    v.invariant = .jumpNotLast := by
  induction count generalizing index found with
  | zero =>
    cases h
    cases hv
  | succ count ih =>
    obtain ⟨x, _, h⟩ := exists_of_bind_ok h
    obtain ⟨rest, hrest, h⟩ := exists_of_bind_ok h
    split at h
    · cases h
      rcases List.mem_cons.mp hv with rfl | hv
      · rfl
      · exact ih hrest hv
    · cases h
      exact ih hrest hv

theorem invariant_of_exitViolation? {last : Instruction} (hv : g.exitViolation? b last = some v) :
    v.invariant ∈ [.terminatorArity, .branchKinds] := by
  simp only [exitViolation?] at hv
  split at hv
  · rw [← Option.some.inj hv]
    exact List.mem_cons_self
  · split at hv
    · rw [← Option.some.inj hv]
      exact List.mem_cons_of_mem _ List.mem_cons_self
    · cases hv

theorem invariant_of_blockViolations {found : List Violation}
    (h : g.blockViolations b = .ok found) (hv : v ∈ found) :
    v.invariant ∈ [.jumpNotLast, .terminatorArity, .branchKinds] := by
  unfold blockViolations at h
  split at h
  · cases h
    cases hv
  · obtain ⟨jumps, hjumps, h⟩ := exists_of_bind_ok h
    obtain ⟨last, _, h⟩ := exists_of_bind_ok h
    cases h
    rcases List.mem_append.mp hv with hjump | hexit
    · rw [invariant_of_innerJumps hjumps hjump]
      exact List.mem_cons_self
    · exact List.mem_cons_of_mem _ (invariant_of_exitViolation? (Option.mem_toList.mp hexit))

theorem invariant_of_terminatorViolations {blocks : List Block} {found : List Violation}
    (h : g.terminatorViolations blocks = .ok found) (hv : v ∈ found) :
    v.invariant ∈ [.jumpNotLast, .terminatorArity, .branchKinds] := by
  induction blocks generalizing found with
  | nil =>
    cases h
    cases hv
  | cons b rest ih =>
    obtain ⟨here, hhere, h⟩ := exists_of_bind_ok h
    obtain ⟨later, hlater, h⟩ := exists_of_bind_ok h
    cases h
    rcases List.mem_append.mp hv with hv | hv
    · exact invariant_of_blockViolations hhere hv
    · exact ih hlater hv

end Invariants

theorem mem_difference {id : Int} {xs ys : List Int} :
    id ∈ difference xs ys ↔ id ∈ xs ∧ id ∉ ys ∨ id ∈ ys ∧ id ∉ xs := by
  simp [difference]

theorem mirrorViolation?_eq_some_iff : g.mirrorViolation? b = some v ↔
    ¬ b.incoming.Perm (g.arrivals b.id) ∧
      v = { invariant := .incomingMirror, blocks := [b.id],
            edges := difference b.incoming (ascending (g.arrivals b.id)),
            detail := "incoming edges do not mirror outgoing edges" } := by
  rw [← ascending_eq_iff_perm]
  simp only [mirrorViolation?]
  split
  case isTrue hsame => simp [hsame]
  case isFalse hother => simp [hother, eq_comm]

/-- Among all violations of a report the mirror scan alone blames lists of incoming edges. -/
theorem exists_mirrorViolation {r : Report} (h : g.validate = .ok r) (hv : v ∈ r.violations)
    (hblames : v.invariant = .incomingMirror) :
    ∃ c ∈ g.blocks, g.mirrorViolation? c = some v := by
  obtain ⟨found, hfound, hviolations⟩ := exists_terminators h
  rw [hviolations] at hv
  simp only [List.mem_append] at hv
  rcases hv with (((hv | hv) | hv) | hv) | hv
  · simp [invariant_of_mem_entryViolations hv] at hblames
  · simp [invariant_of_mem_partitionViolations hv] at hblames
  · simp [invariant_of_mem_endpointViolations hv] at hblames
  · obtain ⟨c, hc, hv⟩ := List.mem_flatMap.mp hv
    rcases List.mem_append.mp hv with hstray | hmirror
    · simp [invariant_of_strayViolation? (Option.mem_toList.mp hstray)] at hblames
    · exact ⟨c, hc, Option.mem_toList.mp hmirror⟩
  · have hother := invariant_of_terminatorViolations hfound hv
    rw [hblames] at hother
    simp at hother

theorem mem_violations_of_mirror {r : Report} (h : g.validate = .ok r) (hb : b ∈ g.blocks)
    (hv : g.mirrorViolation? b = some v) : v ∈ r.violations := by
  obtain ⟨found, _, hviolations⟩ := exists_terminators h
  have hlist : v ∈ g.listViolations :=
    List.mem_flatMap.mpr ⟨b, hb, List.mem_append_right _ (Option.mem_toList.mpr hv)⟩
  rw [hviolations]
  simp [hlist]

namespace Placed

theorem eq_of_id (hp : g.Placed) (hb : b ∈ g.blocks) {c : Block} (hc : c ∈ g.blocks)
    (hid : b.id = c.id) :
    b = c := by
  obtain ⟨p, hbp⟩ := List.mem_iff_getElem?.mp hb
  obtain ⟨q, hcq⟩ := List.mem_iff_getElem?.mp hc
  obtain rfl : p = q := by
    have := hp p b hbp
    have := hp q c hcq
    omega
  exact Option.some.inj (hbp.symm.trans hcq)

theorem hasBlock_id (hp : g.Placed) (hb : b ∈ g.blocks) : g.hasBlock b.id = true := by
  obtain ⟨p, hbp⟩ := List.mem_iff_getElem?.mp hb
  have hlt : p < g.blocks.length := (List.getElem?_eq_some_iff.mp hbp).1
  rw [hasBlock_iff, hp p b hbp]
  omega

/-- The violations that blame the incoming edges of a block are what the mirror scan says of the
block. -/
theorem blamesIncoming_iff (hp : g.Placed) {r : Report} (h : g.validate = .ok r)
    (hb : b ∈ g.blocks) :
    v ∈ r.violations ∧ v.BlamesIncoming b ↔ g.mirrorViolation? b = some v := by
  constructor
  · rintro ⟨hv, hinvariant, hblocks⟩
    obtain ⟨c, hc, hmirror⟩ := exists_mirrorViolation h hv hinvariant
    have hid : b.id = c.id := by
      rw [(mirrorViolation?_eq_some_iff.mp hmirror).2] at hblocks
      exact (List.singleton_inj.mp hblocks).symm
    rwa [hp.eq_of_id hb hc hid]
  · intro hmirror
    refine ⟨mem_violations_of_mirror h hb hmirror, ?_⟩
    rw [(mirrorViolation?_eq_some_iff.mp hmirror).2]
    exact ⟨rfl, rfl⟩

end Placed

theorem mem_arriving_ids {id : Int} : id ∈ (g.arriving b.id).map (·.id) ↔ g.Arrives b id := by
  simp [arriving, Arrives, and_assoc]

/-- The mirror scan speaks up just when some edge is miscounted. -/
theorem Placed.exists_mirrorViolation_iff (hp : g.Placed) (hb : b ∈ g.blocks) :
    (∃ v, g.mirrorViolation? b = some v) ↔ ∃ id, g.Miscounted b id := by
  simp only [mirrorViolation?_eq_some_iff, exists_and_left, exists_eq, and_true,
    arrivals_eq (hp.hasBlock_id hb), List.perm_iff_count, not_forall]
  rfl

/-- The edges that the mirror scan names are those that are listed without arriving or arrive
without being listed. -/
theorem Placed.mem_edges_iff (hp : g.Placed) (hb : b ∈ g.blocks)
    (hv : g.mirrorViolation? b = some v) (id : Int) :
    id ∈ v.edges ↔ ¬ (id ∈ b.incoming ↔ g.Arrives b id) := by
  rw [(mirrorViolation?_eq_some_iff.mp hv).2, mem_difference, ascending,
    sortBy_eq_insertionSort, List.mem_insertionSort, arrivals_eq (hp.hasBlock_id hb),
    mem_arriving_ids]
  tauto

/-- Besides these edges only one that arrives and is listed twice is miscounted. -/
theorem Numbered.miscounted_iff (hn : g.Numbered) {id : Int} : g.Miscounted b id ↔
    ¬ (id ∈ b.incoming ↔ g.Arrives b id) ∨ g.Arrives b id ∧ 1 < b.incoming.count id := by
  have hlisted : id ∈ b.incoming ↔ 0 < b.incoming.count id := List.count_pos_iff.symm
  have hcount : ((g.arriving b.id).map (·.id)).count id =
      if id ∈ (g.arriving b.id).map (·.id) then 1 else 0 := (hn.nodup_ids _).count
  rw [Miscounted, hcount, hlisted]
  by_cases harrives : g.Arrives b id
  · rw [if_pos (mem_arriving_ids.mpr harrives)]
    simp only [harrives, iff_true, true_and]
    omega
  · rw [if_neg fun hmem => harrives (mem_arriving_ids.mp hmem)]
    simp only [harrives, iff_false, false_and, or_false]
    omega

/-- The verdict on a list of incoming edges is exact, and the edges that are named stand in
ascending order. They are the miscounted ones except for those that both arrive and are listed.
Hence all that are miscounted are named just when no edge that arrives is listed twice, and none
is named just when the same edges arrive and are listed. -/
theorem incoming_diagnosis (hp : g.Placed) (hn : g.Numbered) {r : Report} (h : g.validate = .ok r)
    (hb : b ∈ g.blocks) :
    ((∃ v ∈ r.violations, v.BlamesIncoming b) ↔ ∃ id, g.Miscounted b id) ∧
    ∀ v ∈ r.violations, v.BlamesIncoming b →
      v.edges.Pairwise (· < ·) ∧
      (∀ id, id ∈ v.edges ↔ g.Miscounted b id ∧ ¬ (id ∈ b.incoming ∧ g.Arrives b id)) ∧
      ((∀ id, id ∈ v.edges ↔ g.Miscounted b id) ↔
        ∀ id, g.Arrives b id → b.incoming.count id ≤ 1) ∧
      (v.edges = [] ↔ ∀ id, id ∈ b.incoming ↔ g.Arrives b id) := by
  constructor
  · simp only [hp.blamesIncoming_iff h hb]
    exact hp.exists_mirrorViolation_iff hb
  · intro v hv hblames
    have hmirror := (hp.blamesIncoming_iff h hb).mp ⟨hv, hblames⟩
    have hedges := hp.mem_edges_iff hb hmirror
    refine ⟨?_, ?_, ?_, ?_⟩
    · rw [(mirrorViolation?_eq_some_iff.mp hmirror).2]
      exact ascendingSet_strict _
    · intro id
      rw [hedges, hn.miscounted_iff]
      tauto
    · constructor
      · intro hall id harrives
        by_contra htwice
        have hlisted : id ∈ b.incoming := List.count_pos_iff.mp (by omega)
        have hnamed := (hall id).mpr (hn.miscounted_iff.mpr (.inr ⟨harrives, by omega⟩))
        exact (hedges id).mp hnamed (iff_of_true hlisted harrives)
      · intro honce id
        rw [hedges, hn.miscounted_iff]
        refine (or_iff_left ?_).symm
        rintro ⟨harrives, htwice⟩
        have := honce id harrives
        omega
    · rw [List.eq_nil_iff_forall_not_mem]
      simp only [hedges, not_not]

def relisted (ids : List Int) : Graph :=
  ((Edit.assign 2 (.edges .incoming ids)).apply (loopWith [0, 1])).2

theorem relisted_placed (ids : List Int) : (relisted ids).Placed
  | 0, _, rfl => rfl
  | 1, _, rfl => rfl
  | 2, _, rfl => rfl

theorem relisted_numbered (ids : List Int) : (relisted ids).Numbered := loopWith_numbered [0, 1]

/-- The edge that arrives is left out, one that leads elsewhere is listed, and one that does not
exist is listed twice: all three are named. -/
theorem relisted_incoming_diagnosis : ∃ b r v, (relisted [7, 1, 7]).block 2 = .ok b ∧
    (relisted [7, 1, 7]).validate = .ok r ∧ v ∈ r.violations ∧ v.BlamesIncoming b ∧
    v.edges = [0, 1, 7] ∧
    ∀ id, id ∈ v.edges ↔ (relisted [7, 1, 7]).Miscounted b id := by
  let b : Block := { id := 2, start := 3, stop := 4, incoming := [7, 1, 7], terminal := true }
  let v : Violation :=
    { invariant := .incomingMirror, blocks := [2], edges := [0, 1, 7],
      detail := "incoming edges do not mirror outgoing edges" }
  obtain ⟨_, hnames⟩ := incoming_diagnosis (relisted_placed [7, 1, 7])
    (relisted_numbered [7, 1, 7]) (show (relisted [7, 1, 7]).validate = .ok ⟨[v], []⟩ from rfl)
    (show b ∈ (relisted [7, 1, 7]).blocks by decide)
  obtain ⟨_, _, hcomplete, _⟩ := hnames v List.mem_cons_self ⟨rfl, rfl⟩
  refine ⟨b, _, v, rfl, rfl, List.mem_cons_self, ⟨rfl, rfl⟩, rfl, hcomplete.mpr ?_⟩
  have honce : ∀ e ∈ (relisted [7, 1, 7]).edges, e.target = 2 → [7, 1, 7].count e.id ≤ 1 := by
    decide
  rintro id ⟨e, he, htarget, rfl⟩
  exact honce e he htarget

/-- The edge that arrives is listed twice: the block is blamed for it and no edge is named. -/
theorem relisted_doubled_unnamed : (relisted [0, 0]).Placed ∧ (relisted [0, 0]).Numbered ∧
    ∃ b r v, (relisted [0, 0]).block 2 = .ok b ∧ (relisted [0, 0]).validate = .ok r ∧
      v ∈ r.violations ∧
      v.BlamesIncoming b ∧ (relisted [0, 0]).Miscounted b 0 ∧ v.edges = [] := by
  refine ⟨relisted_placed _, relisted_numbered _, _, _, _, rfl, rfl, List.mem_cons_self,
    ⟨rfl, rfl⟩, ?_, rfl⟩
  unfold Miscounted
  decide

end Graph

end FlowGraph
