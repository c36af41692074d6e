import DeployManifest.Compile.Basic

/-! # Where errors point

Every error in the text of a module points at a place, and its message begins with it. Of a malformed
module that is the first faulty node of the recovered tree, in the order in which a walk enters the
nodes (`exists_of_scan_eq_error`).
-/

namespace DeployManifest

namespace SyntaxNode

mutual

/-- The nodes of a tree in the order in which a walk enters them, and whether each is the root. -/
def nodes (isRoot : Bool) : SyntaxNode → List (Bool × SyntaxNode)
  | mk kind start stop children => (isRoot, mk kind start stop children) :: nodesAmong children

def nodesAmong : List SyntaxNode → List (Bool × SyntaxNode)
  | [] => []
  | child :: children => child.nodes false ++ nodesAmong children

end

variable {m : SourceModule}

mutual

theorem fault?_eq_findSome? (isRoot : Bool) (t : SyntaxNode) :
    t.fault? m isRoot = (t.nodes isRoot).findSome? fun node => node.2.ownFault? m node.1 := by
  obtain ⟨kind, start, stop, children⟩ := t
  rw [fault?, nodes, List.findSome?_cons, faultAmong?_eq_findSome? children]
  cases ownFault? m isRoot (mk kind start stop children) <;> rfl

theorem faultAmong?_eq_findSome? (ts : List SyntaxNode) :
    faultAmong? m ts = (nodesAmong ts).findSome? fun node => node.2.ownFault? m node.1 := by
  cases ts with
  | nil => rfl
  | cons t ts =>
    rw [faultAmong?, nodesAmong, List.findSome?_append, fault?_eq_findSome? false t,
      faultAmong?_eq_findSome? ts]

end

end SyntaxNode

namespace SourceModule

variable {m : SourceModule} {e : CompileError}

theorem scan_eq_error_iff : m.scan = .error e ↔ Node.ofText? m.text = none ∧ e = .malformed m := by
  rw [scan, scan?]
  cases Node.ofText? m.text <;> simp [eq_comm]

/-- A malformed module is reported at the first faulty node, whatever tree is made of it. -/
theorem exists_of_scan_eq_error (recovery : Recovery) (failed : m.scan = .error e) :
    ∃ before node after offset fault,
      (recovery.tree m.text).nodes true = before ++ node :: after ∧
      (∀ earlier ∈ before, earlier.2.ownFault? m earlier.1 = none) ∧
      node.2.ownFault? m node.1 = some (offset, fault) ∧
      e.location? recovery = some (m.location offset) ∧
      e.complaint recovery = "syntax error: " ++ fault.reason := by
  obtain ⟨malformed, rfl⟩ := scan_eq_error_iff.mp failed
  obtain ⟨⟨offset, fault⟩, found⟩ := Option.ne_none_iff_exists'.mp (recovery.faulty m malformed)
  have first := found
  rw [SyntaxNode.fault?_eq_findSome?, List.findSome?_eq_some_iff] at first
  obtain ⟨before, node, after, whole, own, none⟩ := first
  have told : (recovery.fault? m).map (fun found => found.2.reason) = some fault.reason := by
    rw [Recovery.fault?, found, Option.map_some]
  refine ⟨before, node, after, offset, fault, whole, none, own, ?_, ?_⟩
  · rw [CompileError.location?, Recovery.fault?, found, Option.map_some]
  · change "syntax error: " ++ ((recovery.fault? m).map fun found => found.2.reason).getD "" = _
    rw [told, Option.getD_some]

end SourceModule

/-- An error in the text of a module points at a place, with which its message begins. -/
theorem CompileError.exists_location? (recovery : Recovery) {e : CompileError}
    (read : ∀ path cause, e ≠ .unreadable path cause)
    (broken : ∀ m, e = .malformed m → Node.ofText? m.text = none) :
    ∃ location, e.location? recovery = some location ∧
      e.message recovery = location.text ++ ": " ++ e.complaint recovery := by
  have placed : ∃ location, e.location? recovery = some location := by
    cases e with
    | malformed m =>
      have failed := SourceModule.scan_eq_error_iff.mpr ⟨broken m rfl, rfl⟩
      obtain ⟨-, -, -, offset, -, -, -, -, place, -⟩ :=
        SourceModule.exists_of_scan_eq_error recovery failed
      exact ⟨m.location offset, place⟩
    | unreadable path cause => exact absurd rfl (read path cause)
    | _ => exact ⟨_, rfl⟩
  obtain ⟨location, place⟩ := placed
  exact ⟨location, place, by rw [message, place]⟩

end DeployManifest
