import RadianceTransfer.Proofs.Bvh.Chain

/-!
# How many parts wait

A search on a stack of fixed capacity does what one on a stack without bound does, as long as no
more parts wait at any time than fit. Once more would, it fails. So whether a question is answered
is decided by how many parts wait during the search without bound, and that is at most the height
of the tree.

The fixed stack has room for 64 parts, and a tree of 66 triangles is at most that high. From 67
triangles on there are triangles, and a ray, for which it overflows: those that shrink towards a
point.

## Main definitions

* `Search.Fits`: a search during which no more parts wait than a number.

## Main statements

* `Search.run_some_of_fits`, `Search.fits_of_run_some`: the two stacks.
* `Hierarchy.Arises.traverse_some_iff`: when a question is answered.
* `Hierarchy.stack_suffices`: when the fixed stack suffices.
-/

namespace RadianceTransfer.Bvh

variable {α σ : Type} [Scalar α]

namespace Search

variable (h : Hierarchy α) (probe : Probe α) (visit : Visitor α σ)

/-- A search comes from one state to another one, on a stack without bound. -/
def Next (s t : Search α σ) : Prop :=
  Step h none probe visit s (.running t)

/-- Whatever states a search without bound comes to, no more parts wait than a number. -/
def Fits (c : Nat) (s : Search α σ) : Prop :=
  ∀ t, Relation.ReflTransGen (Next h probe visit) s t → t.stack.length ≤ c

variable {h probe visit} {c : Nat} {s : Search α σ} {p : Progress α σ}

theorem Step.unique {capacity : Option Nat} {q : Progress α σ}
    (hp : Step h capacity probe visit s p) (hq : Step h capacity probe visit s q) : p = q :=
  Except.ok.inj ((step_eq_ok_iff.2 hp).symm.trans (step_eq_ok_iff.2 hq))

theorem Step.exists_node {capacity : Option Nat} (hp : Step h capacity probe visit s p) :
    ∃ node, h.nodes[s.node]? = some node := by
  cases hp with
  | miss hn => exact ⟨_, hn⟩
  | leaf hn => exact ⟨_, hn⟩
  | interior hn => exact ⟨_, hn⟩

omit [Scalar α] in
theorem pop_running {tFar : α} {result : σ} {stack : List Nat} {t : Search α σ}
    (h : pop tFar result stack = .running t) : t.stack.length < stack.length := by
  cases stack with
  | nil => cases h
  | cons place stack =>
    cases h
    exact Nat.lt_succ_self _

omit [Scalar α] in
theorem resume_running {stack : List Nat} {o : Option α × σ} {t : Search α σ}
    (h : resume stack o = .running t) : t.stack.length < stack.length := by
  obtain ⟨_ | tFar, result⟩ := o
  · cases h
  · exact pop_running h

/-- A step on a stack of some capacity is a step on one without bound after which not too many parts
wait. -/
theorem step_some_iff (hs : s.stack.length ≤ c) :
    Step h (some c) probe visit s p ↔
      Step h none probe visit s p ∧ ∀ t, p = .running t → t.stack.length ≤ c := by
  constructor
  · intro hstep
    cases hstep with
    | miss hn hb => exact ⟨.miss hn hb, fun t ht => (pop_running ht).le.trans hs⟩
    | leaf hn hb hr hv => exact ⟨.leaf hn hb hr hv, fun t ht => (resume_running ht).le.trans hs⟩
    | interior hn hb room =>
      refine ⟨.interior hn hb rfl, ?_⟩
      rintro t ⟨⟩
      exact of_decide_eq_true room
  · rintro ⟨hstep, hroom⟩
    cases hstep with
    | miss hn hb => exact .miss hn hb
    | leaf hn hb hr hv => exact .leaf hn hb hr hv
    | interior hn hb _ => exact .interior hn hb (decide_eq_true (hroom _ rfl))

/-- If the parts that wait always fit, a stack of that capacity makes no difference. -/
theorem run_some_of_fits {n : Nat} {result : σ} (hfits : Fits h probe visit c s)
    (hrun : run h none probe visit n s = .ok result) :
    run h (some c) probe visit n s = .ok result := by
  induction n generalizing s with
  | zero => cases hrun
  | succ n ih =>
    have hs : s.stack.length ≤ c := hfits s .refl
    rcases run_eq_ok_iff.1 hrun with hstep | ⟨t, hstep, ht⟩
    · refine run_eq_ok_iff.2 (.inl ((step_some_iff hs).2 ⟨hstep, ?_⟩))
      rintro t ⟨⟩
    · have hfits' : Fits h probe visit c t := fun u hu => hfits u (.head hstep hu)
      refine run_eq_ok_iff.2 (.inr ⟨t, (step_some_iff hs).2 ⟨hstep, ?_⟩, ih hfits' ht⟩)
      rintro _ ⟨⟩
      exact hfits' t .refl

/-- If a search on a stack of some capacity ends well, the parts that wait always fit. -/
theorem fits_of_run_some {n : Nat} {result : σ} (hs : s.stack.length ≤ c)
    (hrun : run h (some c) probe visit n s = .ok result) : Fits h probe visit c s := by
  induction n generalizing s with
  | zero => cases hrun
  | succ n ih =>
    intro t ht
    rcases Relation.ReflTransGen.cases_head ht with rfl | ⟨u, hnext, hu⟩
    · exact hs
    · rcases run_eq_ok_iff.1 hrun with hstep | ⟨u', hstep, hrest⟩
      · cases ((step_some_iff hs).1 hstep).1.unique hnext
      · obtain ⟨hstep, hroom⟩ := (step_some_iff hs).1 hstep
        cases hstep.unique hnext
        exact ih (hroom u rfl) hrest t hu

end Search

/-- The search that a question to a hierarchy starts, seen on a stack without bound, never has more
parts wait than a number. -/
def Hierarchy.Fits (h : Hierarchy α) (c : Nat) (ray : Ray α) (tFar : α) (result : σ)
    (visit : Visitor α σ) : Prop :=
  Search.Fits h (Probe.ofRay ray) visit c ⟨tFar, result, 0, []⟩

/-- **When a question is answered** on a stack of some capacity: exactly if the parts that wait
always fit. -/
theorem Hierarchy.Arises.traverse_some_iff {meshes : Array (Mesh α)} {maxPerLeaf : Nat}
    {h : Hierarchy α} (ha : Arises meshes maxPerLeaf h) {visit : Visitor α σ}
    (hvisit : ∀ p, IsTriangle meshes p → ∀ tFar result, ∃ o, visit p tFar result = .ok o)
    (c : Nat) (ray : Ray α) (tFar : α) (result : σ) :
    (∃ answer, h.traverse (some c) ray tFar result visit = .ok answer) ↔
      h.Fits c ray tFar result visit := by
  have hunbounded : ∃ answer, h.traverse none ray tFar result visit = .ok answer :=
    (ha.answers hvisit none ray tFar result).resolve_right (by simp)
  unfold Hierarchy.traverse at hunbounded ⊢
  cases ha with
  | empty =>
    refine iff_of_true ⟨result, rfl⟩ fun t ht => ?_
    rcases Relation.ReflTransGen.cases_head ht with rfl | ⟨u, hnext, -⟩
    · exact Nat.zero_le c
    · obtain ⟨node, hn⟩ := hnext.exists_node
      simp at hn
  | @layout t ht =>
    have hne : ¬ t.layout.nodes.isEmpty = true := by
      have := t.size_pos
      rw [Array.isEmpty_iff_size_eq_zero, Tree.layout, List.size_toArray, Tree.length_nodes]
      omega
    rw [if_neg hne] at hunbounded ⊢
    constructor
    · rintro ⟨answer, hanswer⟩
      exact Search.fits_of_run_some (Nat.zero_le c) hanswer
    · intro hfits
      obtain ⟨answer, hanswer⟩ := hunbounded
      exact ⟨answer, Search.run_some_of_fits hfits hanswer⟩

theorem Hierarchy.Arises.traverse_of_fits {meshes : Array (Mesh α)} {maxPerLeaf : Nat}
    {h : Hierarchy α} (ha : Arises meshes maxPerLeaf h) {visit : Visitor α σ}
    (hvisit : ∀ p, IsTriangle meshes p → ∀ tFar result, ∃ o, visit p tFar result = .ok o)
    (c : Nat) (ray : Ray α) (tFar : α) (result : σ) :
    (h.Fits c ray tFar result visit →
      ∃ answer, h.traverse (some c) ray tFar result visit = .ok answer) ∧
    (¬ h.Fits c ray tFar result visit →
      h.traverse (some c) ray tFar result visit = violate .capacity) := by
  rw [← ha.traverse_some_iff hvisit]
  exact ⟨id, fun hnot => ((ha.answers hvisit (some c) ray tFar result).resolve_left hnot).2⟩

/-! ### The fixed stack -/

/-- A question is answered if the parts that wait always fit the fixed stack, and fails if not. -/
def Hierarchy.AnsweredIfFits (h : Hierarchy α) (meshes : Array (Mesh α)) (ray : Ray α) (tFar : α) :
    Prop :=
  (h.Fits stackCapacity ray tFar none (Visitor.nearest meshes (RayFrame.ofRay ray) ray) →
    ∃ closest, h.closestHit meshes ray tFar = .ok closest) ∧
  (¬ h.Fits stackCapacity ray tFar none (Visitor.nearest meshes (RayFrame.ofRay ray) ray) →
    h.closestHit meshes ray tFar = violate .capacity) ∧
  (h.Fits stackCapacity ray tFar false (Visitor.anyHit meshes (RayFrame.ofRay ray) ray) →
    ∃ found, h.isHit meshes ray tFar = .ok found) ∧
  (¬ h.Fits stackCapacity ray tFar false (Visitor.anyHit meshes (RayFrame.ofRay ray) ray) →
    h.isHit meshes ray tFar = violate .capacity)

theorem Hierarchy.Arises.answeredIfFits {meshes : Array (Mesh α)} {maxPerLeaf : Nat}
    {h : Hierarchy α} (ha : Arises meshes maxPerLeaf h) (ray : Ray α) (tFar : α) :
    h.AnsweredIfFits meshes ray tFar := by
  obtain ⟨hclosest, hclosest'⟩ :=
    ha.traverse_of_fits (fun _ hp => exists_nearest hp) stackCapacity ray tFar none
  obtain ⟨hany, hany'⟩ :=
    ha.traverse_of_fits (fun _ hp => exists_anyHit hp) stackCapacity ray tFar false
  exact ⟨hclosest, hclosest', hany, hany'⟩

/-- With at most 66 triangles the fixed stack suffices. -/
theorem Hierarchy.Arises.answers_of_le {meshes : Array (Mesh α)} {maxPerLeaf : Nat}
    {h : Hierarchy α} (ha : Arises meshes maxPerLeaf h) (hle : (primitives meshes).length ≤ 66)
    (ray : Ray α) (tFar : α) :
    (∃ closest, h.closestHit meshes ray tFar = .ok closest) ∧
      ∃ found, h.isHit meshes ray tFar = .ok found := by
  have hheight : ¬ ∃ c, some stackCapacity = some c ∧
      c < Tree.maxHeight (primitives meshes).length := by
    rintro ⟨c, hc, hlt⟩
    cases hc
    unfold Tree.maxHeight stackCapacity at hlt
    split_ifs at hlt <;> omega
  exact ⟨(ha.closestHitWithin _ ray tFar).resolve_right fun h => hheight h.1,
    (ha.isHitWithin _ ray tFar).resolve_right fun h => hheight h.1⟩

variable {K : Type} [Field K] [LinearOrder K] [FloorSemiring K] [ExactFunctions K]
  [IsStrictOrderedRing K]

/-- **When the fixed stack suffices**: both questions are answered exactly if the parts that wait
always fit it. All questions to all hierarchies of a number of triangles are answered exactly if
there are at most 66 triangles. -/
theorem Hierarchy.stack_suffices {a : Arrangement} (ha : a.Lawful) :
    (∀ (meshes : Array (Mesh (Exact K))) (maxPerLeaf : Nat), (∀ m ∈ meshes, m.IsFinite) →
      ∃ h, build a meshes maxPerLeaf = .ok h ∧
        ∀ (ray : Ray (Exact K)) (tFar : Exact K), h.AnsweredIfFits meshes ray tFar) ∧
    ∀ n : Nat, (∀ (meshes : Array (Mesh (Exact K))) (maxPerLeaf : Nat) (ray : Ray (Exact K))
        (tFar : Exact K), (∀ m ∈ meshes, m.IsFinite) →
        (meshes.toList.map Mesh.triangleCount).sum = n → ray.IsRegular →
        ∃ h, build a meshes maxPerLeaf = .ok h ∧
          (∃ closest, h.closestHit meshes ray tFar = .ok closest) ∧
          ∃ found, h.isHit meshes ray tFar = .ok found) ↔ n ≤ 66 := by
  constructor
  · intro meshes maxPerLeaf hfin
    obtain ⟨h, hbuild, harises⟩ := exists_build ha hfin maxPerLeaf
    exact ⟨h, hbuild, harises.answeredIfFits⟩
  · intro n
    constructor
    · intro hall
      by_contra hn
      obtain ⟨h, hbuild, hfull⟩ := Chain.traverse_full (K := K) (n := n) ha 4 le_rfl (by omega)
      obtain ⟨h', hbuild', ⟨closest, hclosest⟩, -⟩ :=
        hall (Chain.meshes K n) 4 (Chain.ray K) .posInf (Chain.meshes_isFinite n)
          (by rw [← length_primitives, Chain.length_primitives_meshes]) Chain.ray_isRegular
      obtain rfl : h = h' := Except.ok.inj (hbuild.symm.trans hbuild')
      have hviolate := hfull (Visitor.nearest (Chain.meshes K n) (RayFrame.ofRay (Chain.ray K))
        (Chain.ray K)) none .posInf stackCapacity trivial (by unfold stackCapacity; omega)
      cases hclosest.symm.trans hviolate
    · intro hn meshes maxPerLeaf ray tFar hfin hcount _
      obtain ⟨h, hbuild, harises⟩ := exists_build ha hfin maxPerLeaf
      rw [← length_primitives] at hcount
      exact ⟨h, hbuild, harises.answers_of_le (hcount.trans_le hn) ray tFar⟩

/-- The largest number of triangles with which the stack always suffices. -/
theorem Hierarchy.stack_suffices_66 :
    ∃ h, build .stable (Chain.meshes ℚ 66) 4 = .ok h ∧
      (∃ closest, h.closestHit (Chain.meshes ℚ 66) (Chain.ray ℚ) .posInf = .ok closest) ∧
      ∃ found, h.isHit (Chain.meshes ℚ 66) (Chain.ray ℚ) .posInf = .ok found :=
  ((stack_suffices Arrangement.lawful_stable).2 66).2 le_rfl (Chain.meshes ℚ 66) 4 (Chain.ray ℚ)
    .posInf (Chain.meshes_isFinite 66)
    (by rw [← length_primitives, Chain.length_primitives_meshes]) Chain.ray_isRegular

/-- One triangle more, and the stack overflows for both questions. -/
theorem Hierarchy.stack_overflows_67 :
    (∀ m ∈ Chain.meshes ℚ 67, m.IsFinite) ∧ (Chain.ray ℚ).IsRegular ∧
      ∃ h, build .stable (Chain.meshes ℚ 67) 4 = .ok h ∧
        h.closestHit (Chain.meshes ℚ 67) (Chain.ray ℚ) .posInf = violate .capacity ∧
        h.isHit (Chain.meshes ℚ 67) (Chain.ray ℚ) .posInf = violate .capacity := by
  obtain ⟨h, hbuild, hfull⟩ :=
    Chain.traverse_full (K := ℚ) (n := 67) Arrangement.lawful_stable 4 le_rfl (by norm_num)
  have hroom : stackCapacity + 2 < 67 := by norm_num [stackCapacity]
  exact ⟨Chain.meshes_isFinite 67, Chain.ray_isRegular, h, hbuild,
    hfull _ _ .posInf stackCapacity trivial hroom, hfull _ _ .posInf stackCapacity trivial hroom⟩

end RadianceTransfer.Bvh
