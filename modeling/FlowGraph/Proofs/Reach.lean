import FlowGraph.Proofs.Search
import FlowGraph.Proofs.WellFormed

/-!
When validation comes to an end with a report. It reads the instructions of every block that is
neither empty nor too long, and a position from the end stands for one of them as long as it does
not lie further back than the stream is long. With one entry and sound endpoints it then searches
for reachable blocks, and the entry's id has to be the place of a block. Nothing else can fail,
whatever the graph.
-/
namespace FlowGraph

/-- The instructions of the block can all be read, or its range tells at once that it is not to
be. -/
def Block.Legible (length : Nat) (b : Block) : Prop :=
  b.start < b.stop → b.stop ≤ length → -(length : Int) ≤ b.start

instance (length : Nat) (b : Block) : Decidable (b.Legible length) :=
  inferInstanceAs (Decidable (_ → _ → _))

theorem Tiling.legible {blocks : List Block} {length : Nat} (h : Tiling blocks length) {b : Block}
    (hb : b ∈ blocks) : b.Legible length := by
  intro _ _
  have := h.bounds hb
  omega

namespace Graph

variable {g : Graph} {b : Block}

theorem exists_instruction_iff {i : Int} : (∃ x, g.instruction i = .ok x) ↔
    -(g.stream.length : Int) ≤ i ∧ i < g.stream.length := by
  simp only [instruction_eq_ok_iff]
  exact Position.exists_get?_iff

theorem instruction_of_outside {i : Int} (h : i < -(g.stream.length : Int)) :
    g.instruction i = .error (.ofPosition i .noInstruction) := by
  cases hget : g.stream.get? i with
  | none => simp [instruction, Stream.instruction, hget]
  | some x =>
    have := exists_instruction_iff.mp ⟨x, instruction_eq_ok_iff.mpr hget⟩
    omega

theorem innerJumps_ok {count : Nat} {index : Int}
    (hlow : -(g.stream.length : Int) ≤ index) (hhigh : index + count ≤ g.stream.length) :
    ∃ found, g.innerJumps b count index = .ok found := by
  induction count generalizing index with
  | zero => exact ⟨[], rfl⟩
  | succ count ih =>
    obtain ⟨x, hx⟩ :=
      exists_instruction_iff.mpr (show -(g.stream.length : Int) ≤ index ∧ _ by omega)
    obtain ⟨rest, hrest⟩ := @ih (index + 1) (by omega) (by omega)
    simp only [innerJumps, hx, hrest, bind, Except.bind]
    split
    · exact ⟨_, rfl⟩
    · exact ⟨_, rfl⟩

theorem blockViolations_ok (h : b.Legible g.stream.length) :
    ∃ found, g.blockViolations b = .ok found := by
  unfold blockViolations
  split
  · exact ⟨[], rfl⟩
  · rename_i hfits
    have hlow := h (by omega) (by omega)
    have hlast : b.lastIndex = b.stop - 1 := rfl
    obtain ⟨jumps, hjumps⟩ :
        ∃ jumps, g.innerJumps b (b.lastIndex - b.start).toNat b.start = .ok jumps :=
      innerJumps_ok hlow (by omega)
    obtain ⟨last, hread⟩ := exists_instruction_iff.mpr
      (show -(g.stream.length : Int) ≤ b.lastIndex ∧ b.lastIndex < g.stream.length by omega)
    exact ⟨jumps ++ (g.exitViolation? b last).toList,
      by simp only [hjumps, hread, bind, Except.bind]⟩

/-- Reading a block that starts too far back stops at its start. -/
theorem blockViolations_of_illegible (h : ¬ b.Legible g.stream.length) :
    g.blockViolations b = .error (.ofPosition b.start .noInstruction) := by
  unfold Block.Legible at h
  have hfits : ¬ (b.stop ≤ b.start ∨ (g.stream.length : Int) < b.stop) := by omega
  have hread := instruction_of_outside (g := g) (i := b.start) (by omega)
  simp only [blockViolations, if_neg hfits]
  cases hcount : (b.lastIndex - b.start).toNat with
  | zero =>
    have hlast : b.lastIndex = b.start := by
      unfold Block.lastIndex at hcount ⊢
      omega
    simp only [innerJumps, hlast, hread, bind, Except.bind]
  | succ count => simp only [innerJumps, hread, bind, Except.bind]

theorem terminatorViolations_ok {blocks : List Block}
    (h : ∀ b ∈ blocks, b.Legible g.stream.length) :
    ∃ found, g.terminatorViolations blocks = .ok found := by
  induction blocks with
  | nil => exact ⟨[], rfl⟩
  | cons b rest ih =>
    obtain ⟨here, hhere⟩ := blockViolations_ok (h b List.mem_cons_self)
    obtain ⟨later, hlater⟩ := ih fun c hc => h c (List.mem_cons_of_mem b hc)
    exact ⟨here ++ later, by simp only [terminatorViolations, hhere, hlater, bind, Except.bind]⟩

/-- The first block that cannot be read decides how the scan of terminators fails. -/
theorem terminatorViolations_of_illegible {before after : List Block}
    (hbefore : ∀ c ∈ before, c.Legible g.stream.length) (hb : ¬ b.Legible g.stream.length) :
    g.terminatorViolations (before ++ b :: after) =
      .error (.ofPosition b.start .noInstruction) := by
  induction before with
  | nil =>
    simp only [List.nil_append, terminatorViolations, blockViolations_of_illegible hb, bind,
      Except.bind]
  | cons c before ih =>
    obtain ⟨here, hhere⟩ := blockViolations_ok (hbefore c List.mem_cons_self)
    have hrest := ih fun d hd => hbefore d (List.mem_cons_of_mem c hd)
    simp only [List.cons_append, terminatorViolations, hhere, hrest, bind, Except.bind]

theorem endpointsSound_iff : g.endpointsSound = true ↔
    g.endpointViolations = [] ∧ ∀ b ∈ g.blocks, g.strayEdges b = [] := by
  simp [endpointsSound]

theorem Silent.endpointsSound (hs : g.Silent) : g.endpointsSound = true :=
  endpointsSound_iff.mpr
    ⟨endpointViolations_eq_nil_iff.mpr hs.edges, fun b hb => (hs.lists b hb).1⟩

theorem navigable_of_endpointsSound (h : g.endpointsSound = true) : g.Navigable := by
  obtain ⟨hedges, hlists⟩ := endpointsSound_iff.mp h
  constructor
  · intro b hb id hid
    have hedge := hasEdge_iff.mp (strayEdges_eq_nil_iff.mp (hlists b hb) id hid).1
    simp only [edge_eq_ok_iff, Position.exists_get?_iff]
    omega
  · intro e he
    have htarget := hasBlock_iff.mp (endpointViolations_eq_nil_iff.mp hedges e he).1.2
    rw [exists_block_iff]
    omega

theorem validate_of_illegible {before after : List Block}
    (hblocks : g.blocks = before ++ b :: after)
    (hbefore : ∀ c ∈ before, c.Legible g.stream.length) (hb : ¬ b.Legible g.stream.length) :
    g.validate = .error (.ofPosition b.start .noInstruction) := by
  unfold validate
  rw [hblocks, terminatorViolations_of_illegible hbefore hb]
  rfl

/-- Whether there is a report on blocks that can all be read depends on the search alone. -/
theorem validate_of_legible (h : ∀ b ∈ g.blocks, b.Legible g.stream.length) :
    ∃ violations, g.validate =
      (if g.entries.length = 1 ∧ g.endpointsSound = true then g.unreachable
      else .ok []).map fun dead => ⟨violations, dead⟩ := by
  obtain ⟨found, hfound⟩ := terminatorViolations_ok h
  refine ⟨g.entryViolations ++ g.partitionViolations ++ g.endpointViolations ++
    g.listViolations ++ found, ?_⟩
  simp only [validate, hfound, bind, Except.bind]
  split
  · cases g.unreachable <;> rfl
  · rfl

/-- A graph in which nothing is found is searched, and the report lists what the search does not
find. -/
theorem Silent.validate_eq (hs : g.Silent) :
    ∃ violations, g.validate = g.unreachable.map fun dead => ⟨violations, dead⟩ := by
  obtain ⟨violations, hvalidate⟩ := validate_of_legible fun b hb => hs.tiling.legible hb
  rw [if_pos ⟨hs.entry, hs.endpointsSound⟩] at hvalidate
  exact ⟨violations, hvalidate⟩

/-- A report is given just when all blocks can be read and the search, if there is one, has a
place to start. -/
theorem validate_ok_iff : (∃ r, g.validate = .ok r) ↔
    (∀ b ∈ g.blocks, b.Legible g.stream.length) ∧
    (g.entries.length = 1 → g.endpointsSound = true →
      ∃ c b, g.entry = .ok c ∧ g.block c = .ok b) := by
  by_cases hlegible : ∀ b ∈ g.blocks, b.Legible g.stream.length
  · obtain ⟨violations, hvalidate⟩ := validate_of_legible hlegible
    rw [hvalidate]
    by_cases hguard : g.entries.length = 1 ∧ g.endpointsSound = true
    · have hsearch := (navigable_of_endpointsSound hguard.2).unreachable_ok_iff
      rw [if_pos hguard, ← hsearch]
      cases g.unreachable with
      | error fault => simp [Except.map, hguard]
      | ok dead => simpa [Except.map] using hlegible
    · rw [if_neg hguard]
      refine ⟨fun _ => ⟨hlegible, ?_⟩, fun _ => ⟨_, rfl⟩⟩
      intro hentry hsound
      exact absurd ⟨hentry, hsound⟩ hguard
  · obtain ⟨before, b, after, hblocks, hbefore, hb⟩ := exists_first_not hlegible
    simp [validate_of_illegible hblocks hbefore hb, hlegible]

theorem exists_entry_block (ht : Tiling g.blocks g.stream.length) :
    ∃ b, g.block 0 = .ok b ∧ b.start = 0 ∧ b.id = 0 := by
  obtain ⟨b, hb⟩ : ∃ b, g.blocks[0]? = some b := by
    cases hblocks : g.blocks with
    | nil => exact absurd hblocks ht.nonempty
    | cons first rest => exact ⟨first, rfl⟩
  exact ⟨b, block_natCast hb, ht.first_start b (by rwa [List.head?_eq_getElem?]), ht.id_eq 0 b hb⟩

theorem entry_eq (ht : Tiling g.blocks g.stream.length) (hu : g.UpToDate) : g.entry = .ok 0 := by
  obtain ⟨b, hb, hstart, hid⟩ := exists_entry_block ht
  have hfound := startingAt?_start ht hu (mem_of_block hb)
  rw [hstart, hid] at hfound
  simp [entry, hfound]

/-- A well-formed graph whose table is up to date is reported on, and nothing is found in it. -/
theorem WellFormed.validate_ok (hw : g.WellFormed) (hn : g.Numbered) (hu : g.UpToDate) :
    ∃ r, g.validate = .ok r ∧ r.violations = [] := by
  obtain ⟨first, hfirst, _⟩ := exists_entry_block hw.tiling
  obtain ⟨r, hr⟩ := validate_ok_iff.mpr ⟨fun b hb => hw.tiling.legible hb,
    fun _ _ => ⟨0, first, entry_eq hw.tiling hu, hfirst⟩⟩
  have hpassed := (passed_iff_silent hr).mpr (silent_of_wellFormed hn hw)
  exact ⟨r, hr, by simpa [Report.passed] using hpassed⟩

end Graph

end FlowGraph
