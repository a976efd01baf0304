import FlowGraph.Graph.Edit
import FlowGraph.Proofs.Lookup

/-!
Drawing edges and marks into a graph. Such edits may name any blocks, by signed position or not at
all, and may fail halfway. Even so a graph only ever gains by them: the edges there were stay
where they are, the lists of outgoing edges keep what they held at their front, and the extents of
the blocks, the table and the flags of freezing are left alone.
-/
namespace FlowGraph

def Edit.draws : Edit → Bool
  | addEdge .. => true
  | markTerminal _ => true
  | freeze => false
  | freezeBlock _ => false
  | append .. => false
  | remove .. => false
  | assign .. => false

structure Block.Extends (b after : Block) : Prop where
  id_eq : after.id = b.id
  start_eq : after.start = b.start
  stop_eq : after.stop = b.stop
  frozen_eq : after.frozen = b.frozen
  outgoing : b.outgoing <+: after.outgoing

namespace Block.Extends

theorem refl (b : Block) : b.Extends b := ⟨rfl, rfl, rfl, rfl, List.prefix_refl _⟩

theorem trans {a b c : Block} (hab : a.Extends b) (hbc : b.Extends c) : a.Extends c :=
  ⟨hbc.id_eq.trans hab.id_eq, hbc.start_eq.trans hab.start_eq, hbc.stop_eq.trans hab.stop_eq,
    hbc.frozen_eq.trans hab.frozen_eq, hab.outgoing.trans hbc.outgoing⟩

theorem of_append {side : Side} {edge : Int} {b after : Block}
    (h : b.append side edge = .ok after) :
    b.Extends after := by
  unfold Block.append at h
  split at h
  · cases h
  · obtain rfl := Except.ok.inj h
    cases side with
    | outgoing => exact ⟨rfl, rfl, rfl, rfl, List.prefix_append _ _⟩
    | incoming => exact ⟨rfl, rfl, rfl, rfl, List.prefix_refl _⟩

theorem of_mark {b after : Block} (h : b.assign (.terminal true) = .ok after) :
    b.Extends after := by
  obtain ⟨_, rfl⟩ := Block.set_eq_ok_iff.mp h
  exact ⟨rfl, rfl, rfl, rfl, List.prefix_refl _⟩

end Block.Extends

namespace Graph

/-- The same graph with nothing taken from its edges or from the lists of outgoing edges. -/
structure Extends (g after : Graph) : Prop where
  stream_eq : after.stream = g.stream
  table_eq : after.table = g.table
  frozen_eq : after.frozen = g.frozen
  edges : g.edges <+: after.edges
  length_eq : after.blocks.length = g.blocks.length
  block : ∀ (p : Nat) (b : Block), g.blocks[p]? = some b →
    ∃ c, after.blocks[p]? = some c ∧ b.Extends c

variable {g after : Graph}

namespace Extends

theorem refl (g : Graph) : g.Extends g :=
  ⟨rfl, rfl, rfl, List.prefix_refl _, rfl, fun _ b hb => ⟨b, hb, Block.Extends.refl b⟩⟩

theorem trans {last : Graph} (h : g.Extends after) (h' : after.Extends last) :
    g.Extends last where
  stream_eq := h'.stream_eq.trans h.stream_eq
  table_eq := h'.table_eq.trans h.table_eq
  frozen_eq := h'.frozen_eq.trans h.frozen_eq
  edges := h.edges.trans h'.edges
  length_eq := h'.length_eq.trans h.length_eq
  block := by
    intro p b hb
    obtain ⟨c, hc, hbc⟩ := h.block p b hb
    obtain ⟨d, hd, hcd⟩ := h'.block p c hc
    exact ⟨d, hd, hbc.trans hcd⟩

/-- A block of the extended graph stands where it stood before. -/
theorem exists_old (h : g.Extends after) {p : Nat} {c : Block} (hc : after.blocks[p]? = some c) :
    ∃ b, g.blocks[p]? = some b ∧ b.Extends c := by
  have hp : p < g.blocks.length := by
    rw [← h.length_eq]
    exact (List.getElem?_eq_some_iff.mp hc).1
  obtain ⟨d, hd, hext⟩ := h.block p _ (List.getElem?_eq_getElem hp)
  obtain rfl : c = d := Option.some.inj (hc.symm.trans hd)
  exact ⟨_, List.getElem?_eq_getElem hp, hext⟩

/-- Whatever is read off the ids and starts of the blocks is read off them still. -/
theorem map_eq (h : g.Extends after) {α : Type} (f : Block → α)
    (hf : ∀ b c : Block, b.Extends c → f c = f b) : after.blocks.map f = g.blocks.map f := by
  apply List.ext_getElem?
  intro p
  rw [List.getElem?_map, List.getElem?_map]
  cases hp : after.blocks[p]? with
  | none =>
    have hnone : g.blocks[p]? = none := by
      rw [List.getElem?_eq_none_iff] at hp ⊢
      rw [← h.length_eq]
      exact hp
    rw [hnone]
  | some c =>
    obtain ⟨b, hb, hext⟩ := h.exists_old hp
    rw [hb, Option.map_some, Option.map_some, hf b c hext]

theorem upToDate (h : g.Extends after) (hu : g.UpToDate) : after.UpToDate := by
  unfold UpToDate
  rw [h.table_eq, hu, h.map_eq]
  intro b c hext
  rw [hext.start_eq, hext.id_eq]

end Extends

theorem updateBlock_eq_ok {c : Int} {f : Block → Except Fault Block}
    (h : g.updateBlock c f = .ok after) :
    ∃ p b changed, Position.resolve? g.blocks.length c = some p ∧ g.blocks[p]? = some b ∧
      f b = .ok changed ∧ after = { g with blocks := g.blocks.set p changed } := by
  unfold updateBlock at h
  split at h
  · cases h
  · rename_i p hp
    split at h
    · cases h
    · rename_i b hb
      split at h
      · rename_i changed hchanged
        exact ⟨p, b, changed, hp, hb, hchanged, (Except.ok.inj h).symm⟩
      · cases h

theorem updateBlock_extends {c : Int} {f : Block → Except Fault Block}
    (hf : ∀ b changed, f b = .ok changed → b.Extends changed)
    (h : g.updateBlock c f = .ok after) :
    g.Extends after := by
  obtain ⟨p, b, changed, _, hb, hchanged, rfl⟩ := updateBlock_eq_ok h
  refine ⟨rfl, rfl, rfl, List.prefix_refl _, List.length_set, ?_⟩
  intro q d hd
  by_cases hpq : p = q
  · subst hpq
    obtain rfl : b = d := Option.some.inj (hb.symm.trans hd)
    have hp : p < g.blocks.length := (List.getElem?_eq_some_iff.mp hb).1
    exact ⟨changed, by simp [hp], hf b changed hchanged⟩
  · exact ⟨d, by simpa [hpq] using hd, Block.Extends.refl d⟩

def record (g : Graph) (e : Edge) : Graph := { g with edges := g.edges ++ [e] }

/-- What becomes of an open graph to which an edge is added. The edge is recorded in any case; its
source has to be found to list it, and then its target. -/
inductive Added (g : Graph) (e : Edge) : Except Fault Edge × Graph → Prop
  | recorded {fault : Fault}
      (hsource : (g.record e).updateBlock e.source (Block.append .outgoing e.id) = .error fault) :
      Added g e (.error fault, g.record e)
  | left {left : Graph} {fault : Fault}
      (hsource : (g.record e).updateBlock e.source (Block.append .outgoing e.id) = .ok left)
      (htarget : left.updateBlock e.target (Block.append .incoming e.id) = .error fault) :
      Added g e (.error fault, left)
  | joined {left joined : Graph}
      (hsource : (g.record e).updateBlock e.source (Block.append .outgoing e.id) = .ok left)
      (htarget : left.updateBlock e.target (Block.append .incoming e.id) = .ok joined) :
      Added g e (.ok e, joined)

theorem addEdge_added (h : g.frozen = false) (source target : Int) (kind : EdgeKind) :
    g.Added ⟨g.edges.length, source, target, kind⟩ (g.addEdge source target kind) := by
  have hopen : ¬ g.frozen = true := by simp [h]
  simp only [addEdge, if_neg hopen]
  split
  · rename_i fault hsource
    exact .recorded hsource
  · rename_i left hsource
    split
    · rename_i fault htarget
      exact .left hsource htarget
    · rename_i joined htarget
      exact .joined hsource htarget

theorem record_extends (g : Graph) (e : Edge) : g.Extends (g.record e) :=
  { Extends.refl g with edges := List.prefix_append _ _ }

theorem append_extends {c edge : Int} {side : Side}
    (h : g.updateBlock c (Block.append side edge) = .ok after) :
    g.Extends after :=
  updateBlock_extends (fun _ _ => Block.Extends.of_append) h

theorem updateBlock_edges {c : Int} {f : Block → Except Fault Block}
    (h : g.updateBlock c f = .ok after) :
    after.edges = g.edges := by
  obtain ⟨_, _, _, _, _, _, rfl⟩ := updateBlock_eq_ok h
  rfl

namespace Added

variable {e : Edge} {result : Except Fault Edge × Graph}

theorem extend (h : g.Added e result) : g.Extends result.2 := by
  have hrecord := record_extends g e
  cases h with
  | recorded _ => exact hrecord
  | left hsource _ => exact hrecord.trans (append_extends hsource)
  | joined hsource htarget =>
    exact (hrecord.trans (append_extends hsource)).trans (append_extends htarget)

theorem edges_eq (h : g.Added e result) : result.2.edges = g.edges ++ [e] := by
  cases h with
  | recorded _ => rfl
  | left hsource _ => exact updateBlock_edges hsource
  | joined hsource htarget => exact (updateBlock_edges htarget).trans (updateBlock_edges hsource)

end Added

theorem addEdge_extends (g : Graph) (source target : Int) (kind : EdgeKind) :
    g.Extends (g.addEdge source target kind).2 := by
  cases h : g.frozen with
  | true =>
    simp only [addEdge, h, if_true]
    exact Extends.refl g
  | false => exact (addEdge_added h source target kind).extend

theorem markTerminal_extends (g : Graph) (b : Int) : g.Extends (g.markTerminal b).2 := by
  unfold markTerminal
  split
  · exact Extends.refl g
  · cases hmark : g.updateBlock b (Block.assign (.terminal true)) with
    | error fault => exact Extends.refl g
    | ok marked => exact updateBlock_extends (fun _ _ => Block.Extends.of_mark) hmark

end Graph

namespace Edit

variable {g : Graph}

theorem apply_extends {edit : Edit} (h : edit.draws = true) : g.Extends (edit.apply g).2 := by
  cases edit with
  | addEdge source target kind => exact g.addEdge_extends source target kind
  | markTerminal b => exact g.markTerminal_extends b
  | freeze => cases h
  | freezeBlock b => cases h
  | append side b e => cases h
  | remove side b e => cases h
  | assign b content => cases h

/-- However many edges and marks are drawn, and however many of these edits fail, the graph only
gains. -/
theorem run_extends {edits : List Edit} (h : ∀ e ∈ edits, e.draws = true) :
    g.Extends (run g edits) := by
  induction edits generalizing g with
  | nil => exact Graph.Extends.refl g
  | cons edit rest ih =>
    have hfirst : g.Extends (edit.apply g).2 := apply_extends (h edit List.mem_cons_self)
    exact hfirst.trans (ih fun e he => h e (List.mem_cons_of_mem edit he))

theorem run_append (g : Graph) (first second : List Edit) :
    run g (first ++ second) = run (run g first) second := List.foldl_append

/-- An edge that is added to an open graph is there in the end, under an id that was free at
first. -/
theorem exists_drawn {edits : List Edit} (h : ∀ e ∈ edits, e.draws = true)
    (hopen : g.frozen = false) {source target : Int} {kind : EdgeKind}
    (hadd : addEdge source target kind ∈ edits) :
    ∃ e ∈ (run g edits).edges, (g.edges.length : Int) ≤ e.id := by
  obtain ⟨before, after, rfl⟩ := List.append_of_mem hadd
  have hbefore : g.Extends (run g before) := run_extends fun e he =>
    h e (List.mem_append_left _ he)
  have hadded := Graph.addEdge_added (hbefore.frozen_eq.trans hopen) source target kind
  have hafter : ((run g before).addEdge source target kind).2.Extends
      (run g (before ++ addEdge source target kind :: after)) := by
    rw [run_append]
    exact run_extends fun e he => h e (List.mem_append_right _ (List.mem_cons_of_mem _ he))
  refine ⟨⟨(run g before).edges.length, source, target, kind⟩, hafter.edges.subset ?_, ?_⟩
  · rw [hadded.edges_eq]
    exact List.mem_append_right _ (List.mem_singleton_self _)
  · exact Int.ofNat_le.mpr hbefore.edges.length_le

end Edit

end FlowGraph
