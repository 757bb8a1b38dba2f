import RadianceTransfer.Bvh.Traversal
import RadianceTransfer.Proofs.Outcome

/-!
# What one step of a search does

A step looks at one node. If the ray misses its box, or after its triangles were visited, the part
on top of the stack is next; at a node with two parts the nearer one is next and the other one
waits. `Search.Step` says this as a relation with one constructor per case, and `step_eq_ok_iff`
that the step function computes it. All that is proved of searches goes by cases on the relation.
-/

namespace RadianceTransfer.Bvh

variable {α σ : Type} [Scalar α]

namespace Search

/-- What comes next after some triangles were visited: no parameter is left once the visitor has
ended the search. -/
def resume (stack : List Nat) : Option α × σ → Progress α σ
  | (some tFar, result) => pop tFar result stack
  | (none, result) => .done result

/-- The places of two parts, the one that the ray meets first in front. -/
def order (probe : Probe α) (axis : Axis) (left right : Nat) : Nat × Nat :=
  if probe.backwards.get axis then (right, left) else (left, right)

variable (h : Hierarchy α) (capacity : Option Nat) (probe : Probe α) (visit : Visitor α σ)

/-- What a successful step does. -/
inductive Step (s : Search α σ) : Progress α σ → Prop where
  /-- The ray misses the box. -/
  | miss {node : Node α} (hn : h.nodes[s.node]? = some node)
      (hb : node.box.hits probe.ray s.tFar probe.invDir probe.backwards = false) :
      Step s (pop s.tFar s.result s.stack)
  /-- The triangles of a leaf are visited. -/
  | leaf {box : Box α} {first count : Nat} {o : Option α × σ}
      (hn : h.nodes[s.node]? = some ⟨box, .leaf first count⟩)
      (hb : box.hits probe.ray s.tFar probe.invDir probe.backwards = true)
      (hr : first + count ≤ h.prims.size)
      (hv : visitAll visit (h.prims.extract first (first + count)).toList s.tFar s.result = .ok o) :
      Step s (resume s.stack o)
  /-- The farther of two parts has to wait. -/
  | interior {box : Box α} {right : Nat} {axis : Axis}
      (hn : h.nodes[s.node]? = some ⟨box, .interior right axis⟩)
      (hb : box.hits probe.ray s.tFar probe.invDir probe.backwards = true)
      (room : hasRoom capacity s.stack = true) :
      Step s (.running ⟨s.tFar, s.result, (order probe axis (s.node + 1) right).1,
        (order probe axis (s.node + 1) right).2 :: s.stack⟩)

variable {h capacity probe visit}

theorem step_of_get {s : Search α σ} {node : Node α} (hn : h.nodes[s.node]? = some node) :
    s.step h capacity probe visit =
      if node.box.hits probe.ray s.tFar probe.invDir probe.backwards then
        match node.kind with
        | .leaf first count =>
          if h.prims.size < first + count then violate .indexOutOfRange
          else (visitAll visit (h.prims.extract first (first + count)).toList s.tFar s.result).map
            (resume s.stack)
        | .interior right axis =>
          if hasRoom capacity s.stack then
            .ok (.running ⟨s.tFar, s.result, (order probe axis (s.node + 1) right).1,
              (order probe axis (s.node + 1) right).2 :: s.stack⟩)
          else violate .capacity
      else .ok (pop s.tFar s.result s.stack) := by
  unfold step
  rw [Outcome.get_eq_ok_iff.2 hn]
  obtain ⟨box, kind⟩ := node
  simp only [bind, Except.bind]
  split
  · cases kind with
    | leaf first count =>
      simp only
      split
      · rfl
      · cases visitAll visit (h.prims.extract first (first + count)).toList s.tFar s.result with
        | error e => rfl
        | ok o => obtain ⟨_ | _, _⟩ := o <;> rfl
    | interior right axis =>
      simp only [order]
      split <;> rfl
  · rfl

theorem step_eq_ok_iff {s : Search α σ} {p : Progress α σ} :
    s.step h capacity probe visit = .ok p ↔ Step h capacity probe visit s p := by
  constructor
  · intro hs
    cases hn : h.nodes[s.node]? with
    | none =>
      have hg : Outcome.get h.nodes s.node = violate .indexOutOfRange := by
        simp [Outcome.get, hn]
      rw [step, hg] at hs
      cases hs
    | some node =>
      obtain ⟨box, kind⟩ := node
      rw [step_of_get hn] at hs
      split at hs
      case isFalse hb =>
        cases hs
        exact .miss hn (by simpa using hb)
      case isTrue hb =>
        cases kind with
        | leaf first count =>
          simp only at hs
          split at hs
          · cases hs
          · rename_i hr
            cases hv : visitAll visit (h.prims.extract first (first + count)).toList s.tFar
              s.result with
            | error e => rw [hv] at hs; cases hs
            | ok o =>
              rw [hv] at hs
              cases hs
              exact .leaf hn hb (Nat.not_lt.1 hr) hv
        | interior right axis =>
          simp only at hs
          split at hs
          · rename_i room
            cases hs
            exact .interior hn hb room
          · cases hs
  · intro hs
    cases hs with
    | miss hn hb => rw [step_of_get hn, if_neg (by simp [hb])]
    | leaf hn hb hr hv =>
      rw [step_of_get hn, if_pos hb]
      simp only
      rw [if_neg (Nat.not_lt.2 hr), hv]
      rfl
    | interior hn hb room =>
      rw [step_of_get hn, if_pos hb]
      simp only
      rw [if_pos room]

variable (h capacity probe visit) in
/-- What becomes of a search after a step, with a number of steps left. -/
def proceed (n : Nat) : Progress α σ → Outcome σ
  | .running t => run h capacity probe visit n t
  | .done result => .ok result

theorem run_succ (n : Nat) (s : Search α σ) :
    run h capacity probe visit (n + 1) s =
      (s.step h capacity probe visit).bind (proceed h capacity probe visit n) := rfl

theorem run_of_step {n : Nat} {s : Search α σ} {p : Progress α σ}
    (hs : Step h capacity probe visit s p) :
    run h capacity probe visit (n + 1) s = proceed h capacity probe visit n p := by
  rw [run_succ, step_eq_ok_iff.2 hs]
  rfl

/-- A run that returns starts with a step, and either ends with it or returns from there. -/
theorem run_eq_ok_iff {n : Nat} {s : Search α σ} {result : σ} :
    run h capacity probe visit (n + 1) s = .ok result ↔
      Step h capacity probe visit s (.done result) ∨
        ∃ t, Step h capacity probe visit s (.running t) ∧
          run h capacity probe visit n t = .ok result := by
  constructor
  · intro hr
    cases hs : s.step h capacity probe visit with
    | error e =>
      rw [run_succ, hs] at hr
      cases hr
    | ok p =>
      have hs := step_eq_ok_iff.1 hs
      rw [run_of_step hs] at hr
      cases p with
      | running t => exact .inr ⟨t, hs, hr⟩
      | done result =>
        cases hr
        exact .inl hs
  · rintro (hs | ⟨t, hs, hr⟩)
    · rw [run_of_step hs, proceed]
    · rw [run_of_step hs, proceed, hr]

end Search

end RadianceTransfer.Bvh
