import RadianceTransfer.Proofs.Bvh.Layout
import RadianceTransfer.Proofs.Bvh.Search

/-!
# A search walks a tree

A search with a stack over the layout of a tree does what a recursion over the tree does: it walks
the nearer part of a node and then the farther one, which has to wait in between. So the room that
is left on the stack is what the walk is given, and it shrinks by one on the way into the nearer
part.

The search below a node ends with what the walk ends with, and goes on with the parts that wait. It
takes at most as many steps as there are nodes, so that the steps of a search always suffice.

## Main definitions

* `Tree.walk`: the walk.
* `Search.Follows`: what a search below a node does.

## Main statements

* `Search.follows_walk`: a search below a node follows the walk.
* `Tree.traverse_layout`: a search over a layout ends as the walk does.
* `Tree.walk_ok_or_full`: how a walk can end.
-/

namespace RadianceTransfer.Bvh

variable {α σ : Type} [Scalar α]

/-! ### The walk -/

/-- Goes on with what is left of a walk, unless the visitor has ended it. -/
def andThen (x : Outcome (Option α × σ)) (rest : α → σ → Outcome (Option α × σ)) :
    Outcome (Option α × σ) :=
  x.bind fun
    | (some tFar, result) => rest tFar result
    | (none, result) => .ok (none, result)

/-- The room that is left on a stack of some capacity, without bound if there is none. -/
def roomLeft (capacity : Option Nat) (stack : List Nat) : Option Nat :=
  capacity.map (· - stack.length)

theorem hasRoom_iff {capacity : Option Nat} {stack : List Nat} :
    hasRoom capacity stack = true ↔ roomLeft capacity stack ≠ some 0 := by
  cases capacity with
  | none => simp [hasRoom, roomLeft]
  | some c =>
    simp only [hasRoom, roomLeft, Option.all_some, decide_eq_true_eq, Option.map_some, ne_eq,
      Option.some.injEq]
    omega

theorem roomLeft_cons {capacity : Option Nat} {stack : List Nat} {place : Nat} :
    roomLeft capacity (place :: stack) = (roomLeft capacity stack).map Nat.pred := by
  cases capacity <;> rfl

/-- What a search does below a node when some room is left on the stack. -/
def Tree.walk (probe : Probe α) (visit : Visitor α σ) :
    Tree α → (room : Option Nat) → α → σ → Outcome (Option α × σ)
  | leaf box ps, _, tFar, result =>
    if box.hits probe.ray tFar probe.invDir probe.backwards then visitAll visit ps tFar result
    else .ok (some tFar, result)
  | node box axis l r, room, tFar, result =>
    if box.hits probe.ray tFar probe.invDir probe.backwards then
      if room = some 0 then violate .capacity
      else if probe.backwards.get axis then
        andThen (r.walk probe visit (room.map Nat.pred) tFar result) (l.walk probe visit room)
      else andThen (l.walk probe visit (room.map Nat.pred) tFar result) (r.walk probe visit room)
    else .ok (some tFar, result)

/-! ### A search follows it -/

namespace Search

variable {h : Hierarchy α} {capacity : Option Nat} {probe : Probe α} {visit : Visitor α σ}

variable (h capacity probe visit) in
/-- A search at a place does something within a number of steps, given the room that is left, and
then goes on with the parts that wait. -/
def Follows (place bound : Nat) (walk : Option Nat → α → σ → Outcome (Option α × σ)) : Prop :=
  ∀ (stack : List Nat) (tFar : α) (result : σ), ∃ used ≤ bound, ∀ steps,
    run h capacity probe visit (used + steps) ⟨tFar, result, place, stack⟩ =
      (walk (roomLeft capacity stack) tFar result).bind fun o =>
        proceed h capacity probe visit steps (resume stack o)

/-- Two places one after the other, of which the second one waits. -/
theorem Follows.both {place place' bound bound' : Nat}
    {walk walk' : Option Nat → α → σ → Outcome (Option α × σ)}
    (hw : Follows h capacity probe visit place bound walk)
    (hw' : Follows h capacity probe visit place' bound' walk') (stack : List Nat) (tFar : α)
    (result : σ) :
    ∃ used ≤ bound + bound', ∀ steps,
      run h capacity probe visit (used + steps) ⟨tFar, result, place, place' :: stack⟩ =
        (andThen (walk ((roomLeft capacity stack).map Nat.pred) tFar result)
          (walk' (roomLeft capacity stack))).bind fun o =>
            proceed h capacity probe visit steps (resume stack o) := by
  obtain ⟨used, hle, hrun⟩ := hw (place' :: stack) tFar result
  rw [roomLeft_cons] at hrun
  cases hwalk : walk ((roomLeft capacity stack).map Nat.pred) tFar result with
  | error e =>
    refine ⟨used, by omega, fun steps => ?_⟩
    rw [hrun, hwalk]
    rfl
  | ok o =>
    obtain ⟨_ | tFar', result'⟩ := o
    · refine ⟨used, by omega, fun steps => ?_⟩
      rw [hrun, hwalk]
      rfl
    · obtain ⟨used', hle', hrun'⟩ := hw' stack tFar' result'
      refine ⟨used + used', by omega, fun steps => ?_⟩
      rw [Nat.add_assoc, hrun, hwalk]
      exact hrun' steps

/-- **A search follows the walk** of the tree below a node. -/
theorem follows_walk {t : Tree α} {place first : Nat} (ht : t.At h place first) :
    Follows h capacity probe visit place t.size (t.walk probe visit) := by
  induction t generalizing place first with
  | leaf box ps =>
    obtain ⟨hn, hsize, hprims⟩ := ht
    refine fun stack tFar result => ⟨1, le_rfl, fun steps => ?_⟩
    rw [Nat.add_comm, run_succ, step_of_get hn, Tree.walk]
    split
    · simp only
      rw [if_neg (Nat.not_lt.2 hsize), hprims]
      cases visitAll visit ps tFar result <;> rfl
    · rfl
  | node box axis l r ihl ihr =>
    obtain ⟨hn, hl, hr⟩ := ht
    refine fun stack tFar result => ?_
    by_cases hhits : box.hits probe.ray tFar probe.invDir probe.backwards = true
    swap
    · refine ⟨1, Tree.size_pos _, fun steps => ?_⟩
      rw [Nat.add_comm, run_succ, step_of_get hn, Tree.walk, if_neg hhits, if_neg hhits]
      rfl
    by_cases hroom : hasRoom capacity stack = true
    swap
    · refine ⟨1, Tree.size_pos _, fun steps => ?_⟩
      have hfull : roomLeft capacity stack = some 0 := by
        by_contra hfull
        exact hroom (hasRoom_iff.2 hfull)
      rw [Nat.add_comm, run_succ, step_of_get hn, Tree.walk, if_pos hhits, if_pos hhits,
        if_pos hfull]
      simp only [if_neg hroom]
      rfl
    -- the nearer part is next, and the farther one waits
    have hstep (used steps : Nat) :
        run h capacity probe visit (used + 1 + steps) ⟨tFar, result, place, stack⟩ =
          run h capacity probe visit (used + steps) ⟨tFar, result,
            (order probe axis (place + 1) (place + 1 + l.size)).1,
            (order probe axis (place + 1) (place + 1 + l.size)).2 :: stack⟩ := by
      rw [Nat.add_right_comm, run_of_step (.interior hn hhits hroom)]
      rfl
    rw [Tree.walk, if_pos hhits, if_neg (hasRoom_iff.1 hroom), Tree.size]
    cases hback : probe.backwards.get axis with
    | true =>
      obtain ⟨used, hle, hrun⟩ := (ihr hr).both (ihl hl) stack tFar result
      refine ⟨used + 1, by omega, fun steps => ?_⟩
      rw [hstep, order, hback]
      exact hrun steps
    | false =>
      obtain ⟨used, hle, hrun⟩ := (ihl hl).both (ihr hr) stack tFar result
      refine ⟨used + 1, by omega, fun steps => ?_⟩
      rw [hstep, order, hback]
      exact hrun steps

end Search

/-- **A search over a layout ends as the walk does.** -/
theorem Tree.traverse_layout (t : Tree α) (capacity : Option Nat) (ray : Ray α) (tFar : α)
    (result : σ) (visit : Visitor α σ) :
    t.layout.traverse capacity ray tFar result visit =
      (t.walk (Probe.ofRay ray) visit capacity tFar result).map Prod.snd := by
  have hsize : t.layout.nodes.size = t.size := by simp [layout]
  have hpos := t.size_pos
  have hfollows : Search.Follows t.layout capacity (Probe.ofRay ray) visit 0 t.size
      (t.walk (Probe.ofRay ray) visit) := Search.follows_walk t.layout_at
  obtain ⟨used, hle, hrun⟩ := hfollows [] tFar result
  unfold Hierarchy.traverse
  rw [if_neg (by rw [Array.isEmpty_iff_size_eq_zero]; omega), hsize, ← Nat.add_sub_cancel' hle,
    hrun]
  have hroom : roomLeft capacity [] = capacity := by cases capacity <;> rfl
  rw [hroom]
  cases t.walk (Probe.ofRay ray) visit capacity tFar result with
  | error e => rfl
  | ok o => obtain ⟨_ | _, _⟩ := o <;> rfl

/-! ### How a walk can end -/

section

variable {α σ : Type} {visit : Visitor α σ}

theorem visitAll_cons {p : PrimRef} {ps : List PrimRef} {tFar : α} {result : σ} :
    visitAll visit (p :: ps) tFar result = andThen (visit p tFar result) (visitAll visit ps) := by
  rw [visitAll]
  cases visit p tFar result with
  | error e => rfl
  | ok o => obtain ⟨_ | _, _⟩ := o <;> rfl

theorem exists_visitAll {ps : List PrimRef}
    (hvisit : ∀ p ∈ ps, ∀ tFar result, ∃ o, visit p tFar result = .ok o) (tFar : α) (result : σ) :
    ∃ o, visitAll visit ps tFar result = .ok o := by
  induction ps generalizing tFar result with
  | nil => exact ⟨_, rfl⟩
  | cons p ps ih =>
    obtain ⟨⟨_ | tFar', result'⟩, hp⟩ := hvisit p List.mem_cons_self tFar result
    · rw [visitAll_cons, hp]
      exact ⟨(none, result'), rfl⟩
    · rw [visitAll_cons, hp]
      exact ih (fun q hq => hvisit q (.tail p hq)) tFar' result'

theorem andThen_ok_or_full {A : Prop} {x : Outcome (Option α × σ)}
    {rest : α → σ → Outcome (Option α × σ)} (hx : (∃ o, x = .ok o) ∨ A ∧ x = violate .capacity)
    (hrest : ∀ tFar result, (∃ o, rest tFar result = .ok o) ∨
      A ∧ rest tFar result = violate .capacity) :
    (∃ o, andThen x rest = .ok o) ∨ A ∧ andThen x rest = violate .capacity := by
  rcases hx with ⟨⟨_ | tFar, result⟩, rfl⟩ | ⟨hA, rfl⟩
  · exact .inl ⟨(none, result), rfl⟩
  · exact hrest tFar result
  · exact .inr ⟨hA, rfl⟩

end

variable {probe : Probe α} {visit : Visitor α σ}

/-- If the visitor never fails, a walk ends well, or there is less room than the tree is high and it
ends for want of room. -/
theorem Tree.walk_ok_or_full {t : Tree α}
    (hvisit : ∀ p ∈ t.prims, ∀ tFar result, ∃ o, visit p tFar result = .ok o) (room : Option Nat)
    (tFar : α) (result : σ) :
    (∃ o, t.walk probe visit room tFar result = .ok o) ∨
      (∃ c, room = some c ∧ c < t.height) ∧
        t.walk probe visit room tFar result = violate .capacity := by
  induction t generalizing room tFar result with
  | leaf box ps =>
    rw [walk]
    split
    · exact .inl (exists_visitAll hvisit tFar result)
    · exact .inl ⟨_, rfl⟩
  | node box axis l r ihl ihr =>
    have hl := ihl fun p hp => hvisit p (List.mem_append_left _ hp)
    have hr := ihr fun p hp => hvisit p (List.mem_append_right _ hp)
    -- what is too little for a part is too little for the node
    have near {n : Nat} (hn : n ≤ max l.height r.height) (hroom : room ≠ some 0) :
        (∃ c, room.map Nat.pred = some c ∧ c < n) →
          ∃ c, room = some c ∧ c < (node box axis l r).height := by
      rintro ⟨_, hc, hlt⟩
      obtain ⟨c, rfl, rfl⟩ := Option.map_eq_some_iff.1 hc
      have : c ≠ 0 := fun h => hroom (congrArg some h)
      refine ⟨c, rfl, ?_⟩
      rw [height]
      rw [Nat.pred_eq_sub_one] at hlt
      omega
    have far {n : Nat} (hn : n ≤ max l.height r.height) : (∃ c, room = some c ∧ c < n) →
        ∃ c, room = some c ∧ c < (node box axis l r).height := by
      rintro ⟨c, hc, hlt⟩
      refine ⟨c, hc, ?_⟩
      rw [height]
      omega
    rw [walk]
    split
    case isFalse => exact .inl ⟨_, rfl⟩
    split
    case isTrue hroom => exact .inr ⟨⟨0, hroom, Nat.succ_pos _⟩, rfl⟩
    case isFalse hroom =>
    split
    · exact andThen_ok_or_full ((hr _ _ _).imp_right (.imp_left (near (le_max_right _ _) hroom)))
        fun _ _ => (hl _ _ _).imp_right (.imp_left (far (le_max_left _ _)))
    · exact andThen_ok_or_full ((hl _ _ _).imp_right (.imp_left (near (le_max_left _ _) hroom)))
        fun _ _ => (hr _ _ _).imp_right (.imp_left (far (le_max_right _ _)))

end RadianceTransfer.Bvh
