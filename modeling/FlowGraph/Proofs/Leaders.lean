import FlowGraph.Leaders
import FlowGraph.Proofs.Wiring

/-!
Leaders are exactly the indices at which blocks have to start. They are zero, the targets of
branches and jumps, and the indices after them. A partition connects and passes validation if and
only if it starts a block at each of them: a missing target is a demand that no block meets, and a
missing index after a jump leaves the jump inside a block.
-/
namespace FlowGraph

def TargetsInside (instructions : List Instruction) : Prop :=
  ∀ i ∈ instructions, i.kind.isJump = true →
    ∃ t, i.target = some t ∧ 0 ≤ t ∧ t < instructions.length

def EndsInExit (instructions : List Instruction) : Prop :=
  ∃ last, instructions.getLast? = some last ∧ (last.kind = .ret ∨ last.kind = .throw)

namespace Stream

variable {s : Stream}

theorem goal_inRange (h : TargetsInside s.instructions) {i : Instruction}
    (hi : i ∈ s.instructions) (hjump : i.kind.isJump = true) :
    0 ≤ i.goal ∧ i.goal < s.length := by
  obtain ⟨t, ht, hlow, hhigh⟩ := h i hi hjump
  have hgoal : i.goal = t := by simp [Instruction.goal, ht]
  rw [hgoal]
  exact ⟨hlow, hhigh⟩

theorem strayJump?_eq_none (h : TargetsInside s.instructions) : s.strayJump? = none := by
  unfold strayJump?
  apply List.find?_eq_none.mpr
  intro i hi
  obtain ⟨hmem, hjump⟩ := List.mem_filter.mp hi
  have hrange := inRange_iff.mpr (goal_inRange h hmem hjump)
  simp [hrange]

theorem leaders_eq (hs : s.length ≠ 0) (h : TargetsInside s.instructions) :
    s.leaders = .ok (ascendingSet (0 :: s.jumps.flatMap s.leadersOfJump)) := by
  simp [leaders, hs, strayJump?_eq_none h]

theorem mem_leadersOfJump {p : Nat} {i : Instruction} (hi : s.instructions[p]? = some i)
    {x : Int} :
    x ∈ s.leadersOfJump i ↔ x = i.goal ∨ x = (p : Int) + 1 ∧ x < s.length := by
  unfold leadersOfJump
  rw [index_eq hi]
  by_cases hlt : (p : Int) + 1 < s.length
  · rw [if_pos hlt]
    simp only [List.mem_cons, List.not_mem_nil, or_false]
    omega
  · rw [if_neg hlt]
    simp only [List.mem_cons, List.not_mem_nil, or_false]
    omega

theorem mem_leaders {leaders : List Int} (hs : s.length ≠ 0) (h : TargetsInside s.instructions)
    (hleaders : s.leaders = .ok leaders) {x : Int} : x ∈ leaders ↔ x = 0 ∨
      ∃ (p : Nat) (i : Instruction), s.instructions[p]? = some i ∧ i.kind.isJump = true ∧
        (x = i.goal ∨ x = (p : Int) + 1 ∧ x < s.length) := by
  rw [leaders_eq hs h] at hleaders
  obtain rfl := Except.ok.inj hleaders
  rw [mem_ascendingSet, List.mem_cons, List.mem_flatMap]
  apply or_congr Iff.rfl
  constructor
  · rintro ⟨i, hi, hx⟩
    obtain ⟨hmem, hjump⟩ := List.mem_filter.mp hi
    obtain ⟨p, hp⟩ := List.mem_iff_getElem?.mp hmem
    exact ⟨p, i, hp, hjump, (mem_leadersOfJump hp).mp hx⟩
  · rintro ⟨p, i, hp, hjump, hx⟩
    exact ⟨i, List.mem_filter.mpr ⟨List.mem_of_getElem? hp, hjump⟩, (mem_leadersOfJump hp).mpr hx⟩

theorem leader_inRange {leaders : List Int} (hs : s.length ≠ 0) (h : TargetsInside s.instructions)
    (hleaders : s.leaders = .ok leaders) {x : Int} (hx : x ∈ leaders) : 0 ≤ x ∧ x < s.length := by
  rcases (mem_leaders hs h hleaders).mp hx with rfl | ⟨p, i, hp, hjump, rfl | ⟨rfl, hlt⟩⟩
  · omega
  · exact goal_inRange h (List.mem_of_getElem? hp) hjump
  · omega

end Stream

namespace Graph

variable {g : Graph} {b : Block}

/-- Only the last block of a stream that ends in a leaving instruction can reach its end. -/
theorem Laid.stop_lt (h : g.Laid) (hend : EndsInExit g.stream.instructions) (hb : b ∈ g.blocks)
    {last : Instruction} (hlast : g.stream.get? b.lastIndex = some last)
    (hstays : last.kind.isTerminal = false) : b.stop < g.stream.length := by
  have hbounds := h.tiling.bounds hb
  obtain ⟨final, hfinal, hkind⟩ := hend
  by_cases hstop : b.stop < g.stream.length
  · exact hstop
  · have hindex : b.lastIndex = ((g.stream.instructions.length - 1 : Nat) : Int) := by
      have hlength : g.stream.length = g.stream.instructions.length := rfl
      unfold Block.lastIndex
      omega
    rw [hindex, Stream.get?_natCast, ← List.getLast?_eq_getElem?, hfinal] at hlast
    obtain rfl : final = last := Option.some.inj hlast
    rw [isTerminal_iff.mpr hkind] at hstays
    cases hstays

theorem startingAt?_ne_none (hu : g.UpToDate) {i : Int} (h : ∃ b ∈ g.blocks, b.start = i) :
    g.startingAt? i ≠ none := by
  intro hnone
  obtain ⟨b, hb, hstart⟩ := h
  exact (startingAt?_eq_none_iff hu).mp hnone b hb hstart

/-- The demands that an instruction of a stream makes at the end of a block. -/
theorem mem_demandsOf {p : Nat} {x : Instruction} (hindex : b.lastIndex = p)
    (hx : g.stream.instructions[p]? = some x) {d : Int × EdgeKind} : d ∈ g.demandsOf b ↔
      x.kind.control = .branch ∧ (d = (x.goal, .trueBranch) ∨ d = (b.stop, .falseBranch)) ∨
      x.kind.control = .jump ∧ d = (x.goal, .fallthrough) ∨
      x.kind.control = .step ∧ d = (b.stop, .fallthrough) := by
  have hstop : x.index.toInt + 1 = b.stop := by
    rw [Stream.index_eq hx, ← hindex]
    unfold Block.lastIndex
    omega
  have hget : g.stream.get? b.lastIndex = some x := by rw [hindex, Stream.get?_natCast, hx]
  cases hcontrol : x.kind.control <;> simp [demandsOf, hget, Instruction.demands, hcontrol, hstop]

/-- A jump inside a block would put the start after it inside that block too. -/
theorem Laid.jumpsLast_of_starts (h : g.Laid)
    (hstarts : ∀ (p : Nat) (x : Instruction), g.stream.instructions[p]? = some x →
      x.kind.isJump = true → (p : Int) + 1 < g.stream.length →
        ∃ c ∈ g.blocks, c.start = (p : Int) + 1) :
    g.JumpsLast := by
  intro b hb i x hlow hhigh hx
  have hbounds := h.tiling.bounds hb
  unfold Block.lastIndex at hhigh
  obtain ⟨p, rfl⟩ := Int.eq_ofNat_of_zero_le (show 0 ≤ i by omega)
  rw [Stream.get?_natCast] at hx
  cases hjump : x.kind.isJump with
  | false => rfl
  | true =>
    obtain ⟨c, hc, hstart⟩ := hstarts p x hx hjump (by omega)
    have hlt := h.tiling.start_lt_stop c hc
    obtain rfl : b = c := h.tiling.eq_of_common hb hc (i := (p : Int) + 1)
      ⟨by omega, by omega⟩ ⟨by omega, by omega⟩
    omega

/-- Every demand but that of a target is met by the block that follows. -/
theorem Laid.met_of_starts (h : g.Laid) (hend : EndsInExit g.stream.instructions)
    (hstarts : ∀ x ∈ g.stream.instructions, x.kind.isJump = true →
      ∃ c ∈ g.blocks, c.start = x.goal) (hb : b ∈ g.blocks) : g.Met b := by
  intro d hd
  obtain ⟨p, last, hp, hget⟩ := exists_last_position h.tiling hb
  have hlast : g.stream.get? b.lastIndex = some last := by rw [hp, Stream.get?_natCast, hget]
  have hmem := List.mem_of_getElem? hget
  have hnext : last.kind.isTerminal = false → ∃ c ∈ g.blocks, c.start = b.stop :=
    fun hstays => h.tiling.exists_next hb (h.stop_lt hend hb hlast hstays)
  apply startingAt?_ne_none h.upToDate
  rcases (mem_demandsOf hp hget).mp hd with ⟨hcontrol, rfl | rfl⟩ | ⟨hcontrol, rfl⟩ |
    ⟨hcontrol, rfl⟩
  · exact hstarts last hmem (isJump_iff_control.mpr (Or.inl hcontrol))
  · exact hnext (by simp [isTerminal_eq_control, hcontrol])
  · exact hstarts last hmem (isJump_iff_control.mpr (Or.inr hcontrol))
  · exact hnext (by simp [isTerminal_eq_control, hcontrol])

/-- A jump that ends its block has its target and the index after it among the starts. -/
theorem Laid.starts_of_met (h : g.Laid) (hmet : ∀ b ∈ g.blocks, g.Met b) (hjumps : g.JumpsLast)
    {p : Nat} {x : Instruction} (hx : g.stream.instructions[p]? = some x)
    (hjump : x.kind.isJump = true) : (∃ c ∈ g.blocks, c.start = x.goal) ∧
      ((p : Int) + 1 < g.stream.length → ∃ c ∈ g.blocks, c.start = (p : Int) + 1) := by
  have hlt : p < g.stream.length := Stream.lt_length hx
  obtain ⟨b, hb, hlow, hhigh⟩ := h.tiling.exists_block (i := (p : Int)) (by omega) (by omega)
  -- Only the demands of last instructions are looked up, so the jump has to be one.
  have hindex : b.lastIndex = p := by
    by_cases hinner : (p : Int) < b.lastIndex
    · have hno := hjumps b hb p x hlow hinner (by rw [Stream.get?_natCast, hx])
      rw [hjump] at hno
      cases hno
    · unfold Block.lastIndex at *
      omega
  constructor
  · have hdemand : ∃ kind, (x.goal, kind) ∈ g.demandsOf b := by
      rcases isJump_iff_control.mp hjump with hcontrol | hcontrol
      · exact ⟨.trueBranch, (mem_demandsOf hindex hx).mpr (Or.inl ⟨hcontrol, Or.inl rfl⟩)⟩
      · exact ⟨.fallthrough, (mem_demandsOf hindex hx).mpr (Or.inr (Or.inl ⟨hcontrol, rfl⟩))⟩
    obtain ⟨kind, hdemand⟩ := hdemand
    obtain ⟨target, htarget⟩ := Option.ne_none_iff_exists'.mp (hmet b hb _ hdemand)
    obtain ⟨c, hc, hstart, _⟩ := exists_of_startingAt? h.upToDate htarget
    exact ⟨c, hc, hstart⟩
  · intro hnext
    have hstop : b.stop = (p : Int) + 1 := by
      unfold Block.lastIndex at hindex
      omega
    rw [← hstop] at hnext ⊢
    exact h.tiling.exists_next hb hnext

end Graph

namespace Stream

variable {s : Stream} {leaders : List Int}

theorem length_ne_zero (hend : EndsInExit s.instructions) : s.length ≠ 0 := by
  obtain ⟨last, hlast, _⟩ := hend
  intro hzero
  have hnil : s.instructions = [] := List.length_eq_zero_iff.mp hzero
  simp [hnil] at hlast

/-- The layout meets all demands and ends a block at every jump just when it starts a block at
every leader. -/
theorem layout_sound_iff (h : TargetsInside s.instructions) (hend : EndsInExit s.instructions)
    (hleaders : s.leaders = .ok leaders) (starts : List Int) :
    ((∀ b ∈ (s.layout starts).blocks, (s.layout starts).Met b) ∧ (s.layout starts).JumpsLast) ↔
      ∀ i ∈ leaders, i ≠ 0 → i ∈ starts := by
  have hs := length_ne_zero hend
  have hlaid : (s.layout starts).Laid := Graph.laid_cut s starts hs
  constructor
  · rintro ⟨hmet, hjumps⟩ i hi hne
    have hstart : ∃ c ∈ s.cut starts, c.start = i := by
      rcases (mem_leaders hs h hleaders).mp hi with rfl | ⟨p, x, hx, hjump, rfl | ⟨rfl, hlt⟩⟩
      · exact absurd rfl hne
      · exact (hlaid.starts_of_met hmet hjumps hx hjump).1
      · exact (hlaid.starts_of_met hmet hjumps hx hjump).2 hlt
    exact ((mem_cut_start s starts).mp hstart).elim (fun hzero => absurd hzero hne) And.left
  · intro hsubset
    have hstart : ∀ i ∈ leaders, ∃ c ∈ (s.layout starts).blocks, c.start = i := by
      intro i hi
      apply (mem_cut_start s starts).mpr
      by_cases hzero : i = 0
      · exact Or.inl hzero
      · exact Or.inr ⟨hsubset i hi hzero, leader_inRange hs h hleaders hi⟩
    constructor
    · intro b hb
      apply hlaid.met_of_starts hend _ hb
      intro x hx hjump
      obtain ⟨p, hp⟩ := List.mem_iff_getElem?.mp hx
      exact hstart _ ((mem_leaders hs h hleaders).mpr (Or.inr ⟨p, x, hp, hjump, Or.inl rfl⟩))
    · apply hlaid.jumpsLast_of_starts
      intro p x hp hjump hlt
      exact hstart _
        ((mem_leaders hs h hleaders).mpr (Or.inr ⟨p, x, hp, hjump, Or.inr ⟨rfl, hlt⟩⟩))

/-- Cutting a stream at a list of integers, connecting the blocks and validating the graph goes
well exactly when the list holds every leader but zero. -/
theorem partition_sound_iff (s : Stream) (htargets : TargetsInside s.instructions)
    (hend : EndsInExit s.instructions) (starts : List Int) :
    (∃ g edges after report, s.partition starts = .ok g ∧ g.connect = (.ok edges, after) ∧
        after.validate = .ok report ∧ report.passed = true) ↔
      ∃ leaders, s.leaders = .ok leaders ∧ ∀ i ∈ leaders, i ≠ 0 → i ∈ starts := by
  have hs := length_ne_zero hend
  have hlaid : (s.layout starts).Laid := Graph.laid_cut s starts hs
  have hbare := Graph.layout_bare s starts
  have hleaders := leaders_eq hs htargets
  constructor
  · rintro ⟨g, edges, after, report, hpartition, hconnect, hvalidate, hpassed⟩
    rw [partition_eq s starts hs] at hpartition
    obtain rfl : s.layout starts = g := Except.ok.inj hpartition
    have hmet := hlaid.met_of_connect hconnect
    rw [hlaid.connect_eq_wired hmet, Prod.mk.injEq] at hconnect
    obtain rfl := hconnect.2
    have hwell := Graph.wellFormed_of_silent hbare.wired_numbered
      ((Graph.passed_iff_silent hvalidate).mp hpassed)
    exact ⟨_, hleaders, (layout_sound_iff htargets hend hleaders starts).mp
      ⟨hmet, hwell.jumpsLast_of_wired⟩⟩
  · rintro ⟨leaders, hleaders, hsubset⟩
    obtain ⟨hmet, hjumps⟩ := (layout_sound_iff htargets hend hleaders starts).mpr hsubset
    have hwell := hlaid.wired_wellFormed hbare hmet hjumps
    obtain ⟨report, hreport, hnone⟩ := hwell.validate_ok hbare.wired_numbered
      (Graph.grow_upToDate _ _ hlaid.upToDate)
    exact ⟨_, _, _, report, partition_eq s starts hs, hlaid.connect_eq_wired hmet, hreport,
      by simp [Report.passed, hnone]⟩

theorem whileLoop_targetsInside : TargetsInside whileLoop.instructions := by
  simp [TargetsInside, whileLoop, Kind.isJump, Kind.jumps]

theorem whileLoop_endsInExit : EndsInExit whileLoop.instructions := by
  simp [EndsInExit, whileLoop]

/-- The loop may be cut wherever else one likes, but not without the start after its branch. -/
theorem whileLoop_partition_sound :
    (∃ g edges after report, whileLoop.partition [9, 3, 2, 2, 1, -1] = .ok g ∧
      g.connect = (.ok edges, after) ∧ after.validate = .ok report ∧ report.passed = true) ∧
    ¬ ∃ g edges after report, whileLoop.partition [0, 3] = .ok g ∧
      g.connect = (.ok edges, after) ∧ after.validate = .ok report ∧ report.passed = true := by
  have hleaders : whileLoop.leaders = .ok [0, 2, 3] := rfl
  constructor
  · apply (partition_sound_iff whileLoop whileLoop_targetsInside whileLoop_endsInExit _).mpr
    exact ⟨[0, 2, 3], hleaders, by decide⟩
  · intro hsound
    obtain ⟨leaders, hfound, hsubset⟩ := (partition_sound_iff whileLoop whileLoop_targetsInside
      whileLoop_endsInExit _).mp hsound
    obtain rfl : [0, 2, 3] = leaders := Except.ok.inj (hleaders.symm.trans hfound)
    exact absurd hsubset (by decide)

end Stream

end FlowGraph
