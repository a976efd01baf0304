import FlowGraph.Connect
import FlowGraph.Validate

/-!
Control classes. What a graph sees of a kind is its class: a branch has two ways on, a jump one, a
leaving instruction none, and every other instruction steps to the next one. No stage knows of
these classes. Streams and leaders ask for kinds that carry a target, the check of a method's end
for kinds that leave it, and connecting and validation each go through the kinds in an order of
their own, with a last case for what remains. Each of these tests is read off the class here,
once, and all further reasoning about kinds is by class.
-/
namespace FlowGraph

inductive Control
  | branch
  | jump
  | leave
  | step
  deriving DecidableEq, Repr

def Kind.control : Kind → Control
  | conditionalJump => .branch
  | unconditionalJump => .jump
  | ret => .leave
  | throw => .leave
  | arithmetic => .step
  | comparison => .step
  | call => .step
  | other => .step

def Control.exitKinds : Control → List EdgeKind
  | .branch => [.trueBranch, .falseBranch]
  | .jump => [.fallthrough]
  | .leave => []
  | .step => [.fallthrough]

/-- The indices that control may go to from the last instruction of a block, with the kind of
edge. -/
def Instruction.demands (i : Instruction) (stop : Int) : List (Int × EdgeKind) :=
  match i.kind.control with
  | .branch => [(i.goal, .trueBranch), (i.index.toInt + 1, .falseBranch)]
  | .jump => [(i.goal, .fallthrough)]
  | .leave => []
  | .step => [(stop, .fallthrough)]

section Kinds

variable {k : Kind}

theorem control_eq_branch_iff : k.control = .branch ↔ k = .conditionalJump := by
  cases k <;> decide

theorem control_eq_jump_iff : k.control = .jump ↔ k = .unconditionalJump := by
  cases k <;> decide

theorem control_eq_leave_iff : k.control = .leave ↔ k = .ret ∨ k = .throw := by
  cases k <;> decide

theorem control_eq_step_iff :
    k.control = .step ↔ k ∉ [.conditionalJump, .unconditionalJump, .ret, .throw] := by
  cases k <;> decide

theorem isJump_eq_control (k : Kind) :
    k.isJump = (k.control == .branch || k.control == .jump) := by
  cases k <;> rfl

theorem isTerminal_eq_control (k : Kind) : k.isTerminal = (k.control == .leave) := by
  cases k <;> rfl

theorem isJump_iff_control : k.isJump = true ↔ k.control = .branch ∨ k.control = .jump := by
  simp [isJump_eq_control]

theorem isTerminal_iff : k.isTerminal = true ↔ k = .ret ∨ k = .throw := by
  simp [isTerminal_eq_control, control_eq_leave_iff]

theorem nodup_exitKinds (c : Control) : c.exitKinds.Nodup := by
  cases c <;> decide

end Kinds

namespace Graph

/-- Validation puts branches first, then leaving instructions, and takes jumps and all others
together. -/
theorem expectedKinds_eq_sort (k : Kind) : expectedKinds k =
    sortBy (fun x y => decide (x.rank ≤ y.rank)) k.control.exitKinds := by
  cases k <;> rfl

/-- Connecting asks for branches, for jumps and for leaving instructions, in this order. -/
theorem connectBlock_eq {g : Graph} {b : Block} {last : Instruction}
    (h : g.terminator b.id = .ok last) : g.connectBlock b =
      if last.kind.isTerminal then g.leaveAt b.id else g.follow b.id (last.demands b.stop) := by
  simp only [connectBlock, h, Instruction.demands]
  cases last.kind <;> rfl

end Graph

end FlowGraph
