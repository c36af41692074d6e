import DeployManifest.Proofs.Span.Front
import DeployManifest.Proofs.Tree.Fits
import DeployManifest.Proofs.Tree.Order

/-! # Rows of nodes

A node that is finished takes the joints of lines that were passed among its parts. What stands
apart from a row in source order may be put in its place there (`Row.placed`), so the parts with the
joints among them are a row again (`Row.finished`).
-/

namespace DeployManifest

namespace Node

variable {m : SourceModule} {n : Node}

/-- The node and all nodes below it stand in source order, and start and stop between characters. -/
structure LiesIn (m : SourceModule) (n : Node) : Prop where
  ordered : n.IsOrdered
  bounded : ∀ part ∈ n.subtrees, m.IsBoundary part.start ∧ m.IsBoundary part.stop

/-- The node lies between two offsets. -/
abbrev Spans (m : SourceModule) (low high : Nat) (n : Node) : Prop :=
  low ≤ n.start ∧ n.start ≤ n.stop ∧ n.stop ≤ high ∧ n.LiesIn m

/-- Neither node starts inside the other. -/
abbrev Apart (n other : Node) : Prop := n.stop ≤ other.start ∨ other.stop ≤ n.start

end Node

namespace SourceModule

/-- The nodes lie between two offsets, one behind the other. -/
def Row (m : SourceModule) : Nat → Nat → List Node → Prop
  | _, _, [] => True
  | low, high, n :: ns => n.Spans m low high ∧ Row m n.stop high ns

namespace Row

open Node (Apart)

variable {m : SourceModule} {low low' mid next high high' : Nat} {n joint : Node}
  {xs ys nodes joints : List Node}

theorem nil : m.Row low high [] := trivial

theorem mono (row : m.Row low high nodes) (bounds : low' ≤ low ∧ high ≤ high') :
    m.Row low' high' nodes := by
  induction nodes generalizing low low' with
  | nil => exact nil
  | cons n nodes ih =>
    obtain ⟨⟨after, filled, before, lies⟩, rest⟩ := row
    exact ⟨⟨by omega, filled, by omega, lies⟩, ih rest ⟨le_rfl, bounds.2⟩⟩

theorem cons (first : n.Spans m low' mid) (rest : m.Row next high' nodes)
    (bounds : low ≤ low' ∧ mid ≤ next ∧ mid ≤ high ∧ high' ≤ high) :
    m.Row low high (n :: nodes) := by
  obtain ⟨after, filled, before, lies⟩ := first
  exact ⟨⟨by omega, filled, by omega, lies⟩, rest.mono (by omega)⟩

theorem single (only : n.Spans m low' mid) (bounds : low ≤ low' ∧ mid ≤ high) :
    m.Row low high [n] :=
  cons only (nil : m.Row mid high []) ⟨bounds.1, le_rfl, bounds.2, le_rfl⟩

theorem append (front : m.Row low' mid xs) (back : m.Row next high' ys)
    (bounds : low ≤ low' ∧ low ≤ next ∧ mid ≤ next ∧ mid ≤ high ∧ high' ≤ high) :
    m.Row low high (xs ++ ys) := by
  induction xs generalizing low low' with
  | nil => exact back.mono (by omega)
  | cons n xs ih =>
    obtain ⟨⟨after, filled, before, lies⟩, rest⟩ := front
    exact ⟨⟨by omega, filled, by omega, lies⟩, ih rest (by omega)⟩

theorem of_mem (row : m.Row low high nodes) (member : n ∈ nodes) : n.Spans m low high := by
  induction nodes generalizing low with
  | nil => cases member
  | cons first rest ih =>
    obtain ⟨⟨after, filled, before, lies⟩, behind⟩ := row
    rcases List.mem_cons.mp member with rfl | member
    · exact ⟨after, filled, before, lies⟩
    · obtain ⟨later, inside⟩ := ih behind member
      exact ⟨by omega, inside⟩

theorem areOrdered (row : m.Row low high nodes) (le : low ≤ high) :
    Node.AreOrdered low high nodes := by
  induction nodes generalizing low with
  | nil =>
    rw [Node.AreOrdered]
    exact le
  | cons n nodes ih =>
    obtain ⟨⟨after, filled, before, lies⟩, rest⟩ := row
    rw [Node.AreOrdered]
    exact ⟨after, lies.ordered, ih rest before⟩

/-- Nodes in source order are a row if all nodes below them start and stop between characters. -/
theorem of_areOrdered (ordered : Node.AreOrdered low high nodes)
    (bounded : ∀ n ∈ nodes, ∀ part ∈ n.subtrees, m.IsBoundary part.start ∧ m.IsBoundary part.stop) :
    m.Row low high nodes := by
  induction nodes generalizing low with
  | nil => exact nil
  | cons n nodes ih =>
    rw [Node.AreOrdered] at ordered
    obtain ⟨after, own, rest⟩ := ordered
    rw [List.forall_mem_cons] at bounded
    exact ⟨⟨after, own.start_le_stop, rest.le, own, bounded.1⟩, ih rest bounded.2⟩

end Row

end SourceModule

namespace Node

variable {m : SourceModule} {kind : NodeKind} {role : Role} {start stop : Nat} {n : Node}
  {children : List Node}

/-- A node lies in the module if its parts are a row between its ends. -/
theorem liesIn_mk_iff : (mk kind role start stop children).LiesIn m ↔
    (m.IsBoundary start ∧ m.IsBoundary stop) ∧ start ≤ stop ∧ m.Row start stop children := by
  constructor
  · rintro ⟨ordered, bounded⟩
    refine ⟨bounded _ (self_mem_subtrees _), ordered.start_le_stop, ?_⟩
    refine .of_areOrdered (isOrdered_iff.mp ordered) fun n member part inside => bounded part ?_
    rw [subtrees]
    exact List.mem_cons_of_mem _ (mem_subtreesAll member inside)
  · rintro ⟨bounded, le, row⟩
    refine ⟨isOrdered_iff.mpr (row.areOrdered le), fun part inside => ?_⟩
    rw [subtrees] at inside
    rcases List.mem_cons.mp inside with rfl | inside
    · exact bounded
    · obtain ⟨n, member, inside⟩ := exists_of_mem_subtreesAll inside
      obtain ⟨-, -, -, lies⟩ := row.of_mem member
      exact lies.bounded part inside

@[simp]
theorem start_withRole (n : Node) (role : Role) : (n.withRole role).start = n.start := by
  cases n
  rfl

@[simp]
theorem stop_withRole (n : Node) (role : Role) : (n.withRole role).stop = n.stop := by
  cases n
  rfl

theorem LiesIn.withRole (lies : n.LiesIn m) (role : Role) : (n.withRole role).LiesIn m := by
  obtain ⟨kind, _, start, stop, children⟩ := n
  exact liesIn_mk_iff.mpr (liesIn_mk_iff.mp lies)

theorem LiesIn.withKind (lies : n.LiesIn m) (kind : NodeKind) : (n.withKind kind).LiesIn m := by
  obtain ⟨_, role, start, stop, children⟩ := n
  exact liesIn_mk_iff.mpr (liesIn_mk_iff.mp lies)

theorem Spans.mono {low low' high high' : Nat} (spans : n.Spans m low high)
    (bounds : low' ≤ low ∧ high ≤ high') : n.Spans m low' high' :=
  ⟨bounds.1.trans spans.1, spans.2.1, spans.2.2.1.trans bounds.2, spans.2.2.2⟩

theorem Spans.withRole {low high : Nat} (spans : n.Spans m low high) (role : Role) :
    (n.withRole role).Spans m low high := by
  obtain ⟨after, filled, before, lies⟩ := spans
  rw [Spans, start_withRole, stop_withRole]
  exact ⟨after, filled, before, lies.withRole role⟩

end Node

namespace SourceModule.Row

open Node (Apart)

variable {m : SourceModule} {c : Cursor} {low high start : Nat} {joint : Node}
  {nodes joints children : List Node}

theorem map_withRole (row : m.Row low high nodes) (role : Role) :
    m.Row low high (nodes.map (·.withRole role)) := by
  induction nodes generalizing low with
  | nil => exact nil
  | cons n nodes ih =>
    refine ⟨Node.Spans.withRole row.1 role, ?_⟩
    rw [Node.stop_withRole]
    exact ih row.2

/-- Two nodes behind each other may be joined to one. -/
theorem join {kind : NodeKind} {left right : Node} (row : m.Row low high (left :: right :: nodes)) :
    m.Row low high (.mk kind .plain left.start right.stop [left, right] :: nodes) := by
  obtain ⟨first, second, rest⟩ := row
  have within : left.start ≤ right.stop := by omega
  refine ⟨⟨first.1, within, second.2.2.1, Node.liesIn_mk_iff.mpr ⟨?_, within, ?_⟩⟩, rest⟩
  · exact ⟨(first.2.2.2.bounded _ left.self_mem_subtrees).1,
      (second.2.2.2.bounded _ right.self_mem_subtrees).2⟩
  · exact ⟨⟨le_rfl, first.2.1, by omega, first.2.2.2⟩,
      ⟨second.1, second.2.1, le_rfl, second.2.2.2⟩, nil⟩

/-! ### Joints among the parts -/

theorem placed (row : m.Row low high nodes) (inside : joint.Spans m low high)
    (filled : joint.start < joint.stop) (apart : ∀ n ∈ nodes, joint.Apart n) :
    m.Row low high (Parser.placed joint nodes) := by
  induction nodes generalizing low with
  | nil => exact single inside ⟨le_rfl, le_rfl⟩
  | cons n nodes ih =>
    obtain ⟨first, rest⟩ := row
    rw [List.forall_mem_cons] at apart
    rw [Parser.placed]
    split
    · exact ⟨inside, ⟨by omega, first.2⟩, rest⟩
    · exact ⟨first, ih rest ⟨by omega, inside.2⟩ apart.2⟩

theorem foldl_placed (row : m.Row low high nodes)
    (inside : ∀ joint ∈ joints, joint.Spans m low high)
    (filled : ∀ joint ∈ joints, joint.start < joint.stop) (among : joints.Pairwise Apart)
    (apart : ∀ joint ∈ joints, ∀ n ∈ nodes, joint.Apart n) :
    m.Row low high (joints.foldl (fun nodes n => Parser.placed n nodes) nodes) := by
  -- A joint that has been placed is one of the nodes that the others stand apart from.
  induction joints generalizing nodes with
  | nil => exact row
  | cons joint joints ih =>
    rw [List.forall_mem_cons] at inside filled apart
    rw [List.pairwise_cons] at among
    refine ih (row.placed inside.1 filled.1 apart.1) inside.2 filled.2 among.2 ?_
    intro other member n found
    rcases Parser.mem_placed.mp found with rfl | given
    · exact (among.1 other member).symm
    · exact apart.2 other member n given

/-- The parts of what is finished at a position are a row with the joints among them. -/
theorem finished (row : m.Row start c.offset children) (tracks : c.Tracks m) :
    m.Row start c.offset ((Parser.jointsOutside c start children).foldl
      (fun nodes n => Parser.placed n nodes) children) := by
  have passed : ∀ joint ∈ Parser.jointsOutside c start children, ∃ place ∈ c.joints,
      joint = .mk .joint .plain place.1 place.2 [] ∧ start < place.1 ∧
        ∀ n ∈ children, joint.Apart n := by
    intro joint member
    obtain ⟨place, outside, rfl⟩ := List.mem_map.mp member
    obtain ⟨inside, apart⟩ := List.mem_filter.mp outside
    rw [List.all_eq_true] at apart
    refine ⟨place, (List.takeWhile_sublist _).subset inside, rfl, ?_, fun n given => ?_⟩
    · simpa using List.mem_takeWhile_imp inside
    · exact (by simpa using apart n given : place.2 ≤ n.start ∨ n.stop ≤ place.1)
  refine row.foldl_placed ?_ ?_ ?_ ?_
  · intro joint member
    obtain ⟨place, given, rfl, after, -⟩ := passed joint member
    have behind := tracks.behind place given
    have bounded := tracks.bounded place given
    exact ⟨after.le, behind.1.le, behind.2, Node.liesIn_mk_iff.mpr ⟨bounded, behind.1.le, nil⟩⟩
  · intro joint member
    obtain ⟨place, given, rfl, -, -⟩ := passed joint member
    exact (tracks.behind place given).1
  · exact List.pairwise_map.mpr ((tracks.apart.sublist
      (List.filter_sublist.trans (List.takeWhile_sublist _))).imp .inr)
  · intro joint member
    obtain ⟨-, -, -, -, apart⟩ := passed joint member
    exact apart

end SourceModule.Row

end DeployManifest
