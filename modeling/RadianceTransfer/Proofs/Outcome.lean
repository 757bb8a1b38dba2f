import RadianceTransfer.Proofs.Parallel.Schedules

/-!
# Computations that may fail

Three ways of speaking about what a computation does. `Outcome.Returns P o` says that a computation
returns, and that its value satisfies `P`. `Outcome.Checks c P o` says when it returns such a value:
exactly if `c` holds, and that it reports an error otherwise. `Outcome.Matches R o o'` says that
whenever the first of two computations returns, so does the second, and that `R` holds between their
values.

All of them pass from the parts of a computation to the whole, whatever the parts are: one after the
other, in a loop over a list, or for every element of a list. A parallel loop over equal items is
such a computation of one value for each number, so two loops that differ in their workers match as
well.

## Main statements

* `Outcome.bind_eq_ok_iff`, `Outcome.get_eq_ok_iff`, `Outcome.mapM_eq_ok_iff`: what it takes to
  return.
* `Outcome.Returns.bind`, `Outcome.Returns.foldlM`, `Outcome.Returns.foldlM_range`,
  `Outcome.Returns.mapM`.
* `Outcome.Checks.bind`, `Outcome.Checks.mapM`.
* `Outcome.Matches.bind`, `Outcome.Matches.foldlM`, `Outcome.Matches.mapM`.
* `Outcome.parallelFor_replicate_eq_ok_iff`: what a parallel loop over equal items returns.
-/

namespace RadianceTransfer.Outcome

variable {β γ δ ε ι : Type}

theorem bind_eq_ok_iff {o : Outcome β} {f : β → Outcome γ} {y : γ} :
    (o >>= f) = .ok y ↔ ∃ x, o = .ok x ∧ f x = .ok y := by
  cases o with
  | ok x =>
    constructor
    · intro h
      exact ⟨x, rfl, h⟩
    · rintro ⟨_, ⟨⟩, h⟩
      exact h
  | error e =>
    constructor
    · rintro ⟨⟩
    · rintro ⟨_, ⟨⟩, -⟩

theorem bind_ok (x : β) (f : β → Outcome γ) : (Except.ok x >>= f) = f x :=
  rfl

theorem get_eq_ok_iff {xs : Array β} {i : Nat} {x : β} :
    Outcome.get xs i = .ok x ↔ xs[i]? = some x := by
  unfold Outcome.get
  cases xs[i]? <;> simp [violate]

/-- An outcome that can be seen to hold something. -/
theorem exists_of_isSome {o : Outcome (Option β)} (h : o.toOption.join.isSome = true) :
    ∃ x, o = .ok (some x) := by
  rcases o with e | _ | x
  · cases h
  · cases h
  · exact ⟨x, rfl⟩

theorem mapM_eq_ok_iff {f : ι → Outcome β} {l : List ι} {ys : List β} :
    l.mapM f = .ok ys ↔ List.Forall₂ (fun i y => f i = .ok y) l ys := by
  induction l generalizing ys with
  | nil =>
    rw [List.mapM_nil, List.forall₂_nil_left_iff]
    exact ⟨fun h => by cases h; rfl, fun h => by rw [h]; rfl⟩
  | cons i l ih =>
    rw [List.mapM_cons, List.forall₂_cons_left_iff, bind_eq_ok_iff]
    simp only [bind_eq_ok_iff, ih]
    constructor
    · rintro ⟨y, hy, ys, hys, ⟨⟩⟩
      exact ⟨y, ys, hy, hys, rfl⟩
    · rintro ⟨y, ys, hy, hys, rfl⟩
      exact ⟨y, hy, ys, hys, rfl⟩

theorem bind_congr {o : Outcome β} {f g : β → Outcome γ} (h : ∀ x, o = .ok x → f x = g x) :
    (o >>= f) = (o >>= g) := by
  cases o with
  | ok x => exact h x rfl
  | error e => exact (rfl : (Except.error e >>= f) = .error e)

theorem foldlM_congr {l : List ι} {f g : β → ι → Outcome β} {x : β}
    (h : ∀ i ∈ l, ∀ x, f x i = g x i) : l.foldlM f x = l.foldlM g x := by
  induction l generalizing x with
  | nil => rfl
  | cons i l ih =>
    rw [List.foldlM_cons, List.foldlM_cons, h i List.mem_cons_self]
    exact congrArg _ (funext fun y => ih fun j hj => h j (List.mem_cons_of_mem _ hj))

theorem mapM_congr {l : List ι} {f g : ι → Outcome β} (h : ∀ i ∈ l, f i = g i) :
    l.mapM f = l.mapM g := by
  induction l with
  | nil => rfl
  | cons i l ih =>
    rw [List.mapM_cons, List.mapM_cons, h i List.mem_cons_self,
      ih fun j hj => h j (List.mem_cons_of_mem _ hj)]

/-! ### One computation -/

/-- The computation returns, and its value satisfies a condition. -/
def Returns (P : β → Prop) (o : Outcome β) : Prop :=
  ∃ x, o = .ok x ∧ P x

section

variable {P : β → Prop} {Q : γ → Prop} {o : Outcome β}

theorem Returns.ok {x : β} (h : P x) : Returns P (.ok x) :=
  ⟨x, rfl, h⟩

theorem Returns.mono {P' : β → Prop} (h : Returns P o) (hP : ∀ x, P x → P' x) : Returns P' o :=
  let ⟨x, hx, hPx⟩ := h
  ⟨x, hx, hP x hPx⟩

theorem Returns.bind {f : β → Outcome γ} (h : Returns P o) (hf : ∀ x, P x → Returns Q (f x)) :
    Returns Q (o >>= f) := by
  obtain ⟨x, hx, hPx⟩ := h
  obtain ⟨y, hy, hQy⟩ := hf x hPx
  exact ⟨y, bind_eq_ok_iff.2 ⟨x, hx, hy⟩, hQy⟩

theorem Returns.foldlM {l : List ι} {f : β → ι → Outcome β} {x : β} (hx : P x)
    (hf : ∀ i ∈ l, ∀ x, P x → Returns P (f x i)) : Returns P (l.foldlM f x) := by
  induction l generalizing x with
  | nil => exact .ok hx
  | cons i l ih =>
    rw [List.foldlM_cons]
    exact (hf i List.mem_cons_self x hx).bind fun y hy =>
      ih hy fun j hj => hf j (List.mem_cons_of_mem _ hj)

/-- A loop over the numbers below `n`, where what holds depends on the number. -/
theorem Returns.foldlM_range {P : Nat → β → Prop} {n : Nat} {f : β → Nat → Outcome β} {x : β}
    (hx : P 0 x) (hf : ∀ k < n, ∀ x, P k x → Returns (P (k + 1)) (f x k)) :
    Returns (P n) ((List.range n).foldlM f x) := by
  induction n with
  | zero => exact .ok hx
  | succ n ih =>
    rw [List.range_succ, List.foldlM_append]
    refine (ih fun k hk => hf k (Nat.lt_succ_of_lt hk)).bind fun y hy => ?_
    rw [List.foldlM_cons]
    exact (hf n n.lt_succ_self y hy).bind fun z hz => .ok hz

theorem Returns.mapM {R : ι → β → Prop} {l : List ι} {f : ι → Outcome β}
    (hf : ∀ i ∈ l, Returns (R i) (f i)) : Returns (List.Forall₂ R l) (l.mapM f) := by
  induction l with
  | nil => exact .ok .nil
  | cons i l ih =>
    rw [List.mapM_cons]
    refine (hf i List.mem_cons_self).bind fun x hx => ?_
    refine (ih fun j hj => hf j (List.mem_cons_of_mem _ hj)).bind fun xs hxs => ?_
    exact .ok (.cons hx hxs)

/-- The elements of a list, each with its position, on which it may depend what holds. -/
theorem Returns.mapM_positions {R : Nat → ι → β → Prop} {l : List ι} {f : ι × Nat → Outcome β}
    (hf : ∀ i x, l[i]? = some x → Returns (R i x) (f (x, i))) :
    Returns (fun ys => ys.length = l.length ∧
      ∀ i x y, l[i]? = some x → ys[i]? = some y → R i x y) (l.zipIdx.mapM f) := by
  have h : Returns (List.Forall₂ (fun p y => R p.2 p.1 y) l.zipIdx) (l.zipIdx.mapM f) := by
    refine .mapM fun ⟨x, i⟩ hmem => hf i x ?_
    rwa [List.mem_zipIdx_iff_getElem?] at hmem
  refine h.mono fun ys hys => ?_
  obtain ⟨hlen, hget⟩ := List.forall₂_iff_get.1 hys
  rw [List.length_zipIdx] at hlen
  refine ⟨hlen.symm, fun i x y hx hy => ?_⟩
  obtain ⟨hi, rfl⟩ := List.getElem?_eq_some_iff.1 hx
  obtain ⟨hi', rfl⟩ := List.getElem?_eq_some_iff.1 hy
  simpa using hget i (by rwa [List.length_zipIdx]) hi'

/-- The elements of a list, each with its position. -/
theorem Returns.mapM_zipIdx {R : ι → β → Prop} {l : List ι} {f : ι × Nat → Outcome β}
    (hf : ∀ i x, l[i]? = some x → Returns (R x) (f (x, i))) :
    Returns (List.Forall₂ R l) (l.zipIdx.mapM f) :=
  (Returns.mapM_positions (R := fun _ => R) hf).mono fun _ hys =>
    List.forall₂_iff_get.2 ⟨hys.1.symm, fun i hi hi' =>
      hys.2 i _ _ (List.getElem?_eq_getElem hi) (List.getElem?_eq_getElem hi')⟩

end

/-! ### Computations that check -/

/-- The computation checks a condition: if it holds, a value with a property is returned, and
otherwise an error is reported. -/
structure Checks (c : Prop) (P : β → Prop) (o : Outcome β) : Prop where
  /-- What passes the check. -/
  returns : c → Returns P o
  /-- What does not pass. -/
  reports : ¬ c → ∃ e, o = report e

section

variable {c d : Prop} {P : β → Prop} {Q : γ → Prop} {o : Outcome β}

theorem Checks.ok {x : β} (hc : c) (h : P x) : Checks c P (.ok x) :=
  ⟨fun _ => .ok h, fun hnot => absurd hc hnot⟩

theorem Checks.report (hc : ¬ c) (e : Error) : Checks c P (RadianceTransfer.report e) :=
  ⟨fun h => absurd h hc, fun _ => ⟨e, rfl⟩⟩

theorem Checks.of_iff (h : Checks c P o) (hcd : c ↔ d) : Checks d P o :=
  ⟨fun hd => h.returns (hcd.2 hd), fun hd => h.reports (mt hcd.1 hd)⟩

theorem Checks.mono {P' : β → Prop} (h : Checks c P o) (hP : ∀ x, P x → P' x) : Checks c P' o :=
  ⟨fun hc => (h.returns hc).mono hP, h.reports⟩

theorem Checks.exists_iff (h : Checks c P o) : (∃ x, o = .ok x) ↔ c := by
  constructor
  · rintro ⟨x, hx⟩
    by_contra hc
    obtain ⟨e, he⟩ := h.reports hc
    cases hx.symm.trans he
  · intro hc
    obtain ⟨x, hx, -⟩ := h.returns hc
    exact ⟨x, hx⟩

theorem Checks.of_eq_ok (h : Checks c P o) {x : β} (hx : o = .ok x) : P x := by
  obtain ⟨y, hy, hP⟩ := h.returns (h.exists_iff.1 ⟨x, hx⟩)
  cases hx.symm.trans hy
  exact hP

/-- One check after the other. -/
theorem Checks.bind {f : β → Outcome γ} (h : Checks c P o) (hf : ∀ x, P x → Checks d Q (f x)) :
    Checks (c ∧ d) Q (o >>= f) := by
  refine ⟨fun hcd => (h.returns hcd.1).bind fun x hx => (hf x hx).returns hcd.2, fun hnot => ?_⟩
  by_cases hc : c
  · obtain ⟨x, hx, hP⟩ := h.returns hc
    rw [hx, bind_ok]
    exact (hf x hP).reports fun hd => hnot ⟨hc, hd⟩
  · obtain ⟨e, he⟩ := h.reports hc
    rw [he]
    exact ⟨e, rfl⟩

/-- A check of every element of a list. -/
theorem Checks.mapM {c : ι → Prop} {R : ι → β → Prop} {l : List ι} {f : ι → Outcome β}
    (hf : ∀ i ∈ l, Checks (c i) (R i) (f i)) :
    Checks (∀ i ∈ l, c i) (List.Forall₂ R l) (l.mapM f) := by
  induction l with
  | nil => exact .ok (fun _ hi => nomatch hi) .nil
  | cons i l ih =>
    rw [List.mapM_cons]
    refine Checks.of_iff ?_ List.forall_mem_cons.symm
    refine (hf i List.mem_cons_self).bind fun x hx => ?_
    refine Checks.of_iff (c := (∀ j ∈ l, c j) ∧ True) ?_ (and_iff_left trivial)
    refine (ih fun j hj => hf j (List.mem_cons_of_mem _ hj)).bind fun xs hxs => ?_
    exact .ok trivial (.cons hx hxs)

end

/-! ### Two computations -/

/-- Whenever the first computation returns, the second one does, and the values are related. -/
def Matches (R : β → γ → Prop) (o : Outcome β) (o' : Outcome γ) : Prop :=
  ∀ x, o = .ok x → Returns (R x) o'

variable {R : β → γ → Prop} {S : δ → ε → Prop} {o : Outcome β} {o' : Outcome γ}

theorem Matches.ok {x : β} {y : γ} (h : R x y) : Matches R (.ok x) (.ok y) := by
  rintro _ ⟨⟩
  exact ⟨y, rfl, h⟩

theorem Matches.bind {f : β → Outcome δ} {g : γ → Outcome ε} (h : Matches R o o')
    (hfg : ∀ x y, R x y → Matches S (f x) (g y)) : Matches S (o >>= f) (o' >>= g) := by
  intro z hz
  obtain ⟨x, hx, hfx⟩ := bind_eq_ok_iff.1 hz
  obtain ⟨y, hy, hxy⟩ := h x hx
  obtain ⟨z', hz', hS⟩ := hfg x y hxy z hfx
  exact ⟨z', bind_eq_ok_iff.2 ⟨y, hy, hz'⟩, hS⟩

/-- A part that both computations have. -/
theorem Matches.bind_self {o : Outcome ι} {f : ι → Outcome δ} {g : ι → Outcome ε}
    (hfg : ∀ x, o = .ok x → Matches S (f x) (g x)) : Matches S (o >>= f) (o >>= g) := by
  have hself : Matches (fun x y => o = .ok x ∧ x = y) o o := fun x hx => ⟨x, hx, hx, rfl⟩
  refine hself.bind ?_
  rintro x _ ⟨hx, rfl⟩
  exact hfg x hx

theorem Matches.foldlM {l : List ι} {f : β → ι → Outcome β} {g : γ → ι → Outcome γ} {x : β} {y : γ}
    (hxy : R x y) (hfg : ∀ i ∈ l, ∀ x y, R x y → Matches R (f x i) (g y i)) :
    Matches R (l.foldlM f x) (l.foldlM g y) := by
  induction l generalizing x y with
  | nil => exact .ok hxy
  | cons i l ih =>
    rw [List.foldlM_cons, List.foldlM_cons]
    refine (hfg i List.mem_cons_self x y hxy).bind fun x' y' h => ?_
    exact ih h fun j hj => hfg j (List.mem_cons_of_mem _ hj)

/-- The elements of three lists of one length are related. -/
inductive Forall₃ (T : ι → β → γ → Prop) : List ι → List β → List γ → Prop where
  /-- Empty lists. -/
  | nil : Forall₃ T [] [] []
  /-- One more element each. -/
  | cons {i : ι} {x : β} {y : γ} {is : List ι} {xs : List β} {ys : List γ} :
    T i x y → Forall₃ T is xs ys → Forall₃ T (i :: is) (x :: xs) (y :: ys)

theorem Forall₃.exists_getElem? {T : ι → β → γ → Prop} {is : List ι} {xs : List β} {ys : List γ}
    (h : Forall₃ T is xs ys) {k : Nat} {i : ι} (hi : is[k]? = some i) :
    ∃ x y, xs[k]? = some x ∧ ys[k]? = some y ∧ T i x y := by
  induction h generalizing k with
  | nil => cases hi
  | cons hT _ ih =>
    cases k with
    | zero =>
      cases hi
      exact ⟨_, _, rfl, rfl, hT⟩
    | succ k => exact ih hi

theorem Forall₃.forall₂ {is : List ι} {xs : List β} {ys : List γ}
    (h : Forall₃ (fun _ => R) is xs ys) : List.Forall₂ R xs ys := by
  induction h with
  | nil => exact .nil
  | cons hR _ ih => exact .cons hR ih

theorem Forall₃.map_left {κ : Type} {T : ι → β → γ → Prop} {f : κ → ι} {ks : List κ}
    {xs : List β} {ys : List γ} (h : Forall₃ (fun k => T (f k)) ks xs ys) :
    Forall₃ T (ks.map f) xs ys := by
  induction h with
  | nil => exact .nil
  | cons hT _ ih => exact .cons hT ih

theorem Forall₃.mono {T T' : ι → β → γ → Prop} {is : List ι} {xs : List β} {ys : List γ}
    (h : Forall₃ T is xs ys) (hT : ∀ i x y, T i x y → T' i x y) : Forall₃ T' is xs ys := by
  induction h with
  | nil => exact .nil
  | cons hxy _ ih => exact .cons (hT _ _ _ hxy) ih

theorem forall₃_of_zip {T : ι → β → γ → Prop} {is : List ι} {xs : List β} {ys : List γ}
    (hlength : is.length = xs.length) (hlength' : xs.length = ys.length)
    (h : ∀ p ∈ is.zip (xs.zip ys), T p.1 p.2.1 p.2.2) : Forall₃ T is xs ys := by
  induction is generalizing xs ys with
  | nil =>
    rw [List.eq_nil_of_length_eq_zero hlength.symm] at hlength' ⊢
    rw [List.eq_nil_of_length_eq_zero hlength'.symm]
    exact .nil
  | cons i is ih =>
    obtain ⟨x, xs, rfl⟩ := List.exists_cons_of_length_eq_add_one hlength.symm
    obtain ⟨y, ys, rfl⟩ := List.exists_cons_of_length_eq_add_one hlength'.symm
    simp only [List.length_cons, Nat.add_right_cancel_iff] at hlength hlength'
    rw [List.zip_cons_cons, List.zip_cons_cons, List.forall_mem_cons] at h
    exact .cons h.1 (ih hlength hlength' h.2)

theorem Matches.mapM {T : ι → β → γ → Prop} {l : List ι} {f : ι → Outcome β} {g : ι → Outcome γ}
    (hfg : ∀ i ∈ l, Matches (T i) (f i) (g i)) :
    Matches (Forall₃ T l) (l.mapM f) (l.mapM g) := by
  induction l with
  | nil => exact .ok .nil
  | cons i l ih =>
    rw [List.mapM_cons, List.mapM_cons]
    refine (hfg i List.mem_cons_self).bind fun x y h => ?_
    refine (ih fun j hj => hfg j (List.mem_cons_of_mem _ hj)).bind fun xs ys hs => ?_
    exact .ok (.cons h hs)

/-- The elements of a list, each with its position. -/
theorem Matches.mapM_zipIdx {T : ι → β → γ → Prop} {l : List ι} {f : ι × Nat → Outcome β}
    {g : ι × Nat → Outcome γ}
    (hfg : ∀ i x, l[i]? = some x → Matches (T x) (f (x, i)) (g (x, i))) :
    Matches (Forall₃ T l) (l.zipIdx.mapM f) (l.zipIdx.mapM g) := by
  intro ys hys
  have hmem : ∀ p ∈ l.zipIdx, Matches (T p.1) (f p) (g p) := fun ⟨x, i⟩ hp =>
    hfg i x (List.mem_zipIdx_iff_getElem?.1 hp)
  obtain ⟨zs, hzs, h⟩ := Matches.mapM hmem ys hys
  have hleft : Forall₃ T (l.zipIdx.map Prod.fst) ys zs := h.map_left
  rw [List.zipIdx_map_fst] at hleft
  exact ⟨zs, hzs, hleft⟩

/-! ### Parallel loops -/

/-- A parallel loop over equal items computes one value for each number, whatever the workers. -/
theorem parallelFor_replicate_eq_ok_iff {n : Nat} {x : β} {p : ThreadParam}
    {body : Nat → β → Outcome β} {out : Array β} :
    parallelFor (Array.replicate n x) p body = .ok out ↔
      (List.range n).mapM (fun i => body i x) = .ok out.toList := by
  rw [parallelFor_eq_ok_iff, mapM_eq_ok_iff, List.forall₂_iff_get]
  constructor
  · rintro ⟨hsize, hmaps⟩
    rw [Array.size_replicate] at hsize
    refine ⟨by rw [List.length_range, Array.length_toList, hsize], fun i hi hi' => ?_⟩
    rw [List.length_range] at hi
    obtain ⟨y, hy, hbody⟩ := hmaps i x (by rw [Array.getElem?_replicate, if_pos hi])
    rw [← Array.getElem?_toList, List.getElem?_eq_getElem hi'] at hy
    cases hy
    simpa using hbody
  · rintro ⟨hsize, hmaps⟩
    rw [List.length_range, Array.length_toList] at hsize
    refine ⟨by rw [Array.size_replicate, hsize], fun i y hy => ?_⟩
    have hi : i < n := by simpa using (Array.getElem?_eq_some_iff.1 hy).1
    rw [Array.getElem?_replicate, if_pos hi] at hy
    cases hy
    have hi' : i < out.size := hsize ▸ hi
    exact ⟨out[i], Array.getElem?_eq_getElem hi', by simpa using hmaps i (by simpa) (by simpa)⟩

end RadianceTransfer.Outcome
