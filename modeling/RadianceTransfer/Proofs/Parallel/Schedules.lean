import RadianceTransfer.Proofs.Parallel.Steps

/-!
# Loops under any schedule

A schedule says which worker makes the next step, and nothing is assumed of it. Whatever it is, the
body is called at most once for an item, and with the item as it was at the start: that is
`Pool.Ran` at the start of a loop, where every item is owed once.

Once all workers have come to their end nothing is left to be done unless a worker stopped, since a
worker finishes only when the queue is empty. So the result is decided by the items and the body
alone. It is the same for the one schedule in which the workers work one after the other, which is
what `parallelFor` does.

Workers come to their end: a step of a worker that is not at its end takes one off a measure of the
work that is left.

## Main statements

* `Pool.getElem?_batches`: which items a batch has.
* `Pool.Ran.result_of_maps`, `Pool.Ran.result_of_error`: the result, once all workers have come to
  their end.
* `Pool.length_le_of_busy`: how many steps there can be.
* `parallelFor_eq_ok_iff`: what the loop returns.
* `parallelFor_any_schedule`: all of it, for any schedule.
-/

namespace RadianceTransfer

/-- A bound on the steps that a worker does before it takes the next batch. -/
def Worker.stepsLeft : Worker → Nat
  | .waiting => 1
  | .working next stop => stop - next + 2
  | .finished => 0
  | .stopped => 0

theorem Worker.active_eq_false {worker : Worker} (h : worker.stepsLeft = 0) :
    worker.active = false := by
  cases worker with
  | waiting => cases h
  | working next stop => cases h
  | finished => rfl
  | stopped => rfl

namespace Pool

variable {β : Type}

/-! ### The start -/

/-- The batch of a number starts behind the full batches before it, and is full itself unless the
items end. -/
theorem getElem?_batchesFrom (size start rest k : Nat) :
    (batchesFrom size start rest)[k]? =
      if k * (size + 1) < rest then
        some ⟨start + k * (size + 1), start + min ((k + 1) * (size + 1)) rest⟩
      else none := by
  induction k generalizing start rest with
  | zero =>
    cases rest with
    | zero => rw [batchesFrom]; rfl
    | succ rest => rw [batchesFrom]; simp
  | succ k ih =>
    cases rest with
    | zero => rw [batchesFrom]; rfl
    | succ rest =>
      rw [batchesFrom, List.getElem?_cons_succ, ih]
      have hk : (k + 1) * (size + 1) = k * (size + 1) + (size + 1) := Nat.succ_mul _ _
      have hk' : (k + 1 + 1) * (size + 1) = (k + 1) * (size + 1) + (size + 1) := Nat.succ_mul _ _
      by_cases h : k * (size + 1) < rest - size
      · rw [if_pos h, if_pos (by omega)]
        congr 2 <;> omega
      · rw [if_neg h, if_neg (by omega)]

/-- A batch has the items from its number times the size of a batch on. -/
theorem getElem?_batches (batchSize count k : Nat) :
    (batches batchSize count)[k]? =
      if k * max batchSize 1 < count then
        some ⟨k * max batchSize 1, min ((k + 1) * max batchSize 1) count⟩
      else none := by
  rw [batches, getElem?_batchesFrom, Nat.sub_add_cancel (Nat.le_max_right _ _), Nat.zero_add,
    Nat.zero_add]

theorem flatMap_batchesFrom (size start rest : Nat) :
    (batchesFrom size start rest).flatMap Batch.items = List.range' start rest := by
  induction rest using Nat.strong_induction_on generalizing start with
  | _ rest ih =>
    cases rest with
    | zero => rw [batchesFrom]; rfl
    | succ rest =>
      rw [batchesFrom, List.flatMap_cons, ih (rest - size) (by omega)]
      by_cases h : size ≤ rest
      · rw [Batch.items, show start + min (size + 1) (rest + 1) - start = size + 1 by omega,
          List.range'_append_1, show size + 1 + (rest - size) = rest + 1 by omega]
      · rw [Batch.items, show start + min (size + 1) (rest + 1) - start = rest + 1 by omega,
          show rest - size = 0 by omega]
        simp

variable (items : Array β) (p : ThreadParam)

/-- At the start every item is owed once. -/
theorem owed_start : (start items p).owed = List.range items.size := by
  rw [owed, start, batches, flatMap_batchesFrom, List.range_eq_range']
  simp [List.flatMap_replicate]

theorem sound_start : (start items p).Sound := by
  constructor
  case nodup =>
    rw [owed_start]
    exact List.nodup_range
  case lt_size =>
    intro i hi
    rw [owed_start] at hi
    exact List.mem_range.1 hi
  case drained =>
    intro hf
    simp [start] at hf

theorem stopped_notMem_start : Worker.stopped ∉ (start items p).workers := by
  simp [start]

theorem size_workers_start_pos : 0 < (start items p).workers.size := by
  rw [start, Array.size_replicate, ThreadParam.workers]
  exact Nat.lt_of_lt_of_le Nat.one_pos (Nat.le_max_right _ _)

/-! ### The end -/

variable {items p} {body : Nat → β → Outcome β} {calls : List (Nat × β)} {last : Pool β}

/-- Once all workers have come to their end, none of them by stopping, no item is owed. -/
theorem owed_of_ended (hs : last.Sound) (hsize : 0 < last.workers.size) (hended : last.ended = true)
    (hstop : Worker.stopped ∉ last.workers) : last.owed = [] := by
  have hfinished : ∀ worker ∈ last.workers, worker = .finished := by
    intro worker hw
    have hactive := Array.all_eq_true_iff_forall_mem.1 hended worker hw
    cases worker with
    | waiting => simp [Worker.active] at hactive
    | working next stop => simp [Worker.active] at hactive
    | finished => rfl
    | stopped => exact absurd hw hstop
  have hempty : last.queue = [] :=
    hs.drained (hfinished _ (Array.getElem_mem hsize) ▸ Array.getElem_mem hsize)
  rw [owed, hempty, List.flatMap_nil, List.nil_append, List.flatMap_eq_nil_iff]
  intro worker hw
  rw [hfinished worker (Array.mem_toList_iff.1 hw)]
  rfl

/-- Once all workers have come to their end, none of them by stopping, every item has been in a
call. -/
theorem Ran.called (h : Ran body (start items p) calls last) (hended : last.ended = true)
    (hstop : Worker.stopped ∉ last.workers) {i : Nat} {x : β} (hx : items[i]? = some x) :
    (i, x) ∈ calls := by
  obtain ⟨lost, hperm, hlost⟩ := h.owed
  have howed : last.owed = [] :=
    owed_of_ended h.sound (h.size_workers ▸ size_workers_start_pos items p) hended hstop
  have hnone : lost = [] := not_not.1 (mt hlost hstop)
  rw [howed, hnone, List.append_nil, List.append_nil, owed_start] at hperm
  have hi : i ∈ List.range items.size :=
    List.mem_range.2 (Array.getElem?_eq_some_iff.1 hx).1
  obtain ⟨⟨j, y⟩, hc, rfl⟩ := List.mem_map.1 (hperm.mem_iff.2 hi)
  have hy : items[j]? = some y := h.original _ hc
  cases hx.symm.trans hy
  exact hc

/-- A worker stops only if the body fails on some item. -/
theorem Ran.exists_error (h : Ran body (start items p) calls last)
    (hstop : Worker.stopped ∈ last.workers) :
    ∃ i x e, items[i]? = some x ∧ body i x = .error e := by
  obtain hp | ⟨c, hc, e, he⟩ := h.cause hstop
  · exact absurd hp (stopped_notMem_start items p)
  · exact ⟨c.1, c.2, e, h.original c hc, he⟩

theorem result_of_stopped (hstop : Worker.stopped ∈ last.workers) :
    last.result p = report (if p.threads ≤ 1 then .loopStopped else .workerStopped) := by
  have hany : last.workers.any (· == .stopped) = true :=
    Array.any_eq_true'.2 ⟨_, hstop, by simp⟩
  rw [result, if_pos hany]

theorem result_of_not_stopped (hstop : Worker.stopped ∉ last.workers) :
    last.result p = .ok last.items := by
  have hany : ¬ last.workers.any (· == .stopped) = true := by
    intro h
    obtain ⟨worker, hw, hs⟩ := Array.any_eq_true'.1 h
    exact hstop (eq_of_beq hs ▸ hw)
  rw [result, if_neg hany]

/-- The array of what the body returns on each item of another one. -/
def Maps (body : Nat → β → Outcome β) (items out : Array β) : Prop :=
  out.size = items.size ∧ ∀ i x, items[i]? = some x → ∃ y, out[i]? = some y ∧ body i x = .ok y

theorem exists_maps (h : ∀ i x, items[i]? = some x → ∃ y, body i x = .ok y) :
    ∃ out, Maps body items out := by
  have h' (i : Fin items.size) : ∃ y, body i items[i] = .ok y :=
    h i items[i] (Array.getElem?_eq_getElem i.2)
  choose f hf using h'
  refine ⟨Array.ofFn f, by simp, fun i x hx => ?_⟩
  obtain ⟨hi, rfl⟩ := Array.getElem?_eq_some_iff.1 hx
  exact ⟨f ⟨i, hi⟩, by simp [hi], hf ⟨i, hi⟩⟩

theorem Ran.result_of_maps (h : Ran body (start items p) calls last) (hended : last.ended = true)
    {out : Array β} (hout : Maps body items out) : last.result p = .ok out := by
  have hstop : Worker.stopped ∉ last.workers := by
    intro hstop
    obtain ⟨i, x, e, hx, he⟩ := h.exists_error hstop
    obtain ⟨y, -, hy⟩ := hout.2 i x hx
    cases he.symm.trans hy
  have hsize : last.items.size = items.size := h.size_items
  rw [result_of_not_stopped hstop]
  congr 1
  apply Array.ext_getElem?
  intro i
  by_cases hi : i < items.size
  · have hx : items[i]? = some items[i] := Array.getElem?_eq_getElem hi
    obtain ⟨y, hout, hy⟩ := hout.2 i items[i] hx
    rw [hout]
    exact h.returned _ (h.called hended hstop hx) y hy
  · rw [Array.getElem?_eq_none (by omega), Array.getElem?_eq_none (by rw [hout.1]; omega)]

theorem Ran.result_of_error (h : Ran body (start items p) calls last) (hended : last.ended = true)
    {i : Nat} {x : β} {e : Failure} (hx : items[i]? = some x) (he : body i x = .error e) :
    last.result p = report (if p.threads ≤ 1 then .loopStopped else .workerStopped) := by
  apply result_of_stopped
  by_contra hstop
  exact hstop (h.failed _ (h.called hended hstop hx) e he)

/-! ### Work that is left -/

/-- A bound on the steps that the batches in the queue need: one for each item, and two to take a
batch and to leave it. -/
def queueLeft (pool : Pool β) : Nat :=
  (pool.queue.flatMap Batch.items).length + 2 * pool.queue.length

/-- A bound on all the steps that are left. -/
def stepsLeft (pool : Pool β) : Nat :=
  pool.queueLeft + (pool.workers.toList.map Worker.stepsLeft).sum

/-- A schedule in which every step is one of a worker that has not come to its end. -/
def Busy (body : Nat → β → Outcome β) : List Nat → Pool β → Prop
  | [], _ => True
  | w :: schedule, pool =>
    (∃ worker, pool.workers[w]? = some worker ∧ worker.active = true) ∧
      Busy body schedule (pool.step body w)

/-- A step of a worker that has not come to its end leaves less to be done, and the other workers
as they are. -/
theorem Step.leaves_less {pool pool' : Pool β} {w : Nat} {c : Option (Nat × β)} {worker : Worker}
    (h : Step body pool w c pool') (hw : pool.workers[w]? = some worker)
    (ha : worker.active = true) :
    ∃ worker', pool'.workers = pool.workers.setIfInBounds w worker' ∧
      pool'.queueLeft + worker'.stepsLeft < pool.queueLeft + worker.stepsLeft := by
  cases h with
  | idle hw' => simp [hw, ha] at hw'
  | finish hw' hq =>
    cases hw.symm.trans hw'
    exact ⟨.finished, rfl, by simp [queueLeft, Worker.stepsLeft]⟩
  | @take b queue hw' hq =>
    cases hw.symm.trans hw'
    refine ⟨.working b.start b.stop, rfl, ?_⟩
    simp only [queueLeft, hq, Worker.stepsLeft, List.flatMap_cons, List.length_append,
      List.length_cons, Batch.items, List.length_range']
    omega
  | @call next stop x y hw' hn hx hy =>
    cases hw.symm.trans hw'
    refine ⟨.working (next + 1) stop, rfl, ?_⟩
    simp only [queueLeft, Worker.stepsLeft]
    omega
  | fail hw' hn hx he =>
    cases hw.symm.trans hw'
    exact ⟨.stopped, rfl, by simp [queueLeft, Worker.stepsLeft]⟩
  | missing hw' hn hx =>
    cases hw.symm.trans hw'
    exact ⟨.stopped, rfl, by simp [queueLeft, Worker.stepsLeft]⟩
  | leave hw' hn =>
    cases hw.symm.trans hw'
    refine ⟨.waiting, rfl, ?_⟩
    simp only [queueLeft, Worker.stepsLeft]
    omega

theorem Step.queueLeft_le {pool pool' : Pool β} {w : Nat} {c : Option (Nat × β)}
    (h : Step body pool w c pool') : pool'.queueLeft ≤ pool.queueLeft := by
  cases h with
  | take hw hq =>
    simp only [queueLeft, hq, List.flatMap_cons, List.length_append, List.length_cons]
    omega
  | _ => exact Nat.le_refl _

theorem sum_map_set {γ : Type} {f : γ → Nat} {l : List γ} {i : Nat} {a : γ} (ha : l[i]? = some a)
    (b : γ) : f a + ((l.set i b).map f).sum = f b + (l.map f).sum := by
  induction l generalizing i with
  | nil => cases ha
  | cons c l ih =>
    cases i with
    | zero =>
      cases ha
      simp only [List.set_cons_zero, List.map_cons, List.sum_cons]
      omega
    | succ i =>
      have hrest := ih (i := i) ha
      simp only [List.set_cons_succ, List.map_cons, List.sum_cons]
      omega

/-- However the workers that have not come to their end take turns, there are only so many steps. -/
theorem length_le_of_busy {schedule : List Nat} {pool : Pool β} (h : Busy body schedule pool) :
    schedule.length ≤ pool.stepsLeft := by
  induction schedule generalizing pool with
  | nil => exact Nat.zero_le _
  | cons w schedule ih =>
    obtain ⟨⟨worker, hworker, ha⟩, hrest⟩ := h
    obtain ⟨worker', hset, hlt⟩ := (step_spec body pool w).leaves_less hworker ha
    have hsum : worker.stepsLeft + ((pool.step body w).workers.toList.map Worker.stepsLeft).sum =
        worker'.stepsLeft + (pool.workers.toList.map Worker.stepsLeft).sum := by
      rw [hset, Array.toList_setIfInBounds]
      exact sum_map_set (by rw [Array.getElem?_toList, hworker]) worker'
    have hle := ih hrest
    simp only [stepsLeft, List.length_cons] at hle ⊢
    omega

variable (items p) in
theorem stepsLeft_start :
    (start items p).stepsLeft =
      items.size + 2 * (batches p.batchSize items.size).length + p.workers := by
  have hitems : ((start items p).queue.flatMap Batch.items).length = items.size := by
    rw [start, batches, flatMap_batchesFrom, List.length_range']
  rw [stepsLeft, queueLeft, hitems]
  simp [start, Worker.stepsLeft]

/-! ### One worker after the other -/

/-- Some steps have brought a worker to its end, left the other workers as they are, and put
nothing into the queue. -/
structure Drained (pool : Pool β) (w : Nat) (last : Pool β) : Prop where
  /-- The worker has come to its end. -/
  worker : ∃ worker, last.workers[w]? = some worker ∧ worker.active = false
  /-- The other workers are as they were. -/
  others : ∀ v, v ≠ w → last.workers[v]? = pool.workers[v]?
  /-- The queue is no longer than it was. -/
  queueLeft_le : last.queueLeft ≤ pool.queueLeft

/-- A worker that goes on until it can do no more comes to its end, if it may do as many steps as
are left for it. -/
theorem exists_drain {steps : Nat} {pool : Pool β} {w : Nat} {worker : Worker}
    (hw : pool.workers[w]? = some worker) (hsteps : pool.queueLeft + worker.stepsLeft ≤ steps) :
    ∃ schedule, pool.drain body w steps = pool.run body schedule ∧
      Drained pool w (pool.run body schedule) := by
  induction steps generalizing pool worker with
  | zero =>
    have ha : worker.active = false := Worker.active_eq_false (by omega)
    exact ⟨[], rfl, ⟨worker, hw, ha⟩, fun _ _ => rfl, Nat.le_refl _⟩
  | succ steps ih =>
    cases ha : worker.active with
    | false =>
      exact ⟨[], by simp [drain, hw, ha, run], ⟨worker, hw, ha⟩, fun _ _ => rfl, Nat.le_refl _⟩
    | true =>
      obtain ⟨worker', hset, hlt⟩ := (step_spec body pool w).leaves_less hw ha
      have hw' : (pool.step body w).workers[w]? = some worker' := by
        rw [hset]
        exact Array.getElem?_setIfInBounds_self_of_lt (Array.getElem?_eq_some_iff.1 hw).1
      have hle : (pool.step body w).queueLeft ≤ pool.queueLeft :=
        (step_spec body pool w).queueLeft_le
      obtain ⟨schedule, hdrain, hend, hothers, hqueue⟩ := ih hw' (by omega)
      refine ⟨w :: schedule, ?_, hend, fun v hv => ?_, hqueue.trans hle⟩
      · simp only [drain, hw, Option.any_some, ha, if_true]
        exact hdrain
      · show ((pool.step body w).run body schedule).workers[v]? = pool.workers[v]?
        rw [hothers v hv, hset, Array.getElem?_setIfInBounds_ne hv.symm]

theorem run_append (schedule schedule' : List Nat) (pool : Pool β) :
    pool.run body (schedule ++ schedule') = (pool.run body schedule).run body schedule' :=
  List.foldl_append

/-- Workers that go on one after the other, each until it can do no more, all come to their end. -/
theorem exists_foldl_drain {bound : Nat} {ws : List Nat} {pool : Pool β} (hnodup : ws.Nodup)
    (hws : ∀ w ∈ ws, pool.workers[w]? = some .waiting) (hbound : pool.queueLeft + 1 ≤ bound) :
    ∃ schedule,
      ws.foldl (fun pool w => pool.drain body w bound) pool = pool.run body schedule ∧
      (∀ w ∈ ws, ∃ worker, (pool.run body schedule).workers[w]? = some worker ∧
        worker.active = false) ∧
      ∀ w, w ∉ ws → (pool.run body schedule).workers[w]? = pool.workers[w]? := by
  induction ws generalizing pool with
  | nil => exact ⟨[], rfl, by simp, fun _ _ => rfl⟩
  | cons w ws ih =>
    obtain ⟨hw, hnodup⟩ := List.nodup_cons.1 hnodup
    obtain ⟨first, hdrain, hend, hothers, hqueue⟩ :=
      exists_drain (hws w List.mem_cons_self) hbound
    have hws' : ∀ v ∈ ws, (pool.run body first).workers[v]? = some .waiting := by
      intro v hv
      rw [hothers v (by rintro rfl; exact hw hv)]
      exact hws v (List.mem_cons_of_mem _ hv)
    obtain ⟨rest, hfold, hends, hkept⟩ := ih hnodup hws' (by omega)
    refine ⟨first ++ rest, ?_, ?_, ?_⟩
    · rw [List.foldl_cons, hdrain, hfold, run_append]
    · intro v hv
      rw [run_append]
      rcases List.mem_cons.1 hv with rfl | hv
      · rw [hkept v hw]
        exact hend
      · exact hends v hv
    · intro v hv
      rw [List.mem_cons, not_or] at hv
      rw [run_append, hkept v hv.2, hothers v hv.1]

end Pool

open Pool

variable {β : Type} {items : Array β} {p : ThreadParam} {body : Nat → β → Outcome β}

/-- The loop is one of the schedules. -/
theorem exists_schedule_parallelFor (items : Array β) (p : ThreadParam)
    (body : Nat → β → Outcome β) :
    ∃ schedule, ((start items p).run body schedule).ended = true ∧
      parallelFor items p body = ((start items p).run body schedule).result p := by
  have hws : ∀ w ∈ List.range p.workers, (start items p).workers[w]? = some .waiting := by
    intro w hw
    simpa [start, Array.getElem?_replicate] using List.mem_range.1 hw
  have hbound : (start items p).queueLeft + 1 ≤ (start items p).stepBound := by
    rw [queueLeft, start, batches, flatMap_batchesFrom, List.length_range', stepBound]
  obtain ⟨schedule, hfold, hends, -⟩ := exists_foldl_drain List.nodup_range hws hbound
  refine ⟨schedule, ?_, congrArg (Pool.result p) hfold⟩
  rw [ended, Array.all_eq_true_iff_forall_mem]
  intro worker hworker
  obtain ⟨w, hw⟩ := Array.mem_iff_getElem?.1 hworker
  have hsize : ((start items p).run body schedule).workers.size = p.workers := by
    rw [(ran_run body schedule (sound_start items p)).size_workers, start, Array.size_replicate]
  have hlt : w < p.workers := hsize ▸ (Array.getElem?_eq_some_iff.1 hw).1
  obtain ⟨worker', hw', ha⟩ := hends w (List.mem_range.2 hlt)
  cases hw.symm.trans hw'
  simp [ha]

/-- The loop returns what the body returns on every item, if it never fails. -/
theorem parallelFor_eq {out : Array β} (hout : Maps body items out) :
    parallelFor items p body = .ok out := by
  obtain ⟨schedule, hended, heq⟩ := exists_schedule_parallelFor items p body
  rw [heq]
  exact (ran_run body schedule (sound_start items p)).result_of_maps hended hout

/-- The loop fails if the body fails on some item. -/
theorem parallelFor_eq_report {i : Nat} {x : β} {e : Failure} (hx : items[i]? = some x)
    (he : body i x = .error e) :
    parallelFor items p body =
      report (if p.threads ≤ 1 then .loopStopped else .workerStopped) := by
  obtain ⟨schedule, hended, heq⟩ := exists_schedule_parallelFor items p body
  rw [heq]
  exact (ran_run body schedule (sound_start items p)).result_of_error hended hx he

theorem parallelFor_eq_ok_iff {out : Array β} :
    parallelFor items p body = .ok out ↔ Maps body items out := by
  constructor
  · intro h
    by_cases herror : ∃ i x e, items[i]? = some x ∧ body i x = .error e
    case pos =>
      obtain ⟨i, x, e, hx, he⟩ := herror
      rw [parallelFor_eq_report hx he] at h
      cases h
    case neg =>
      have hok : ∀ i x, items[i]? = some x → ∃ y, body i x = .ok y := by
        intro i x hx
        cases hb : body i x with
        | ok y => exact ⟨y, rfl⟩
        | error e => exact absurd ⟨i, x, e, hx, hb⟩ herror
      obtain ⟨out', hout⟩ := exists_maps hok
      cases (parallelFor_eq hout).symm.trans h
      exact hout
  · exact parallelFor_eq

/-- **Any order of steps gives the same result.** The queue holds all items in batches of one size,
of which only the last one may be smaller.

In a run of any schedule the body is called at most once for an item, with the item as it was at the
start, and an item without a call stays as it was; the run depends on nothing else of the body.

Once all workers have come to their end, the result is what the body returns on every item, whatever
the schedule, the size of a batch and the number of workers, if it fails on no item. If it fails on
some item, the result is a failure.

Workers do come to their end, since those that have not can only do so many steps, and the loop is
itself one of the schedules. -/
theorem parallelFor_any_schedule (items : Array β) (body : Nat → β → Outcome β) :
    (∀ (p : ThreadParam) (k : Nat), (start items p).queue[k]? =
      if k * max p.batchSize 1 < items.size then
        some ⟨k * max p.batchSize 1, min ((k + 1) * max p.batchSize 1) items.size⟩
      else none) ∧
    (∀ (p : ThreadParam) (schedule : List Nat),
      ((calls body schedule (start items p)).map Prod.fst).Nodup ∧
      (∀ c ∈ calls body schedule (start items p), items[c.1]? = some c.2) ∧
      (∀ i, i ∉ (calls body schedule (start items p)).map Prod.fst →
        ((start items p).run body schedule).items[i]? = items[i]?) ∧
      (∀ body' : Nat → β → Outcome β,
        (∀ c ∈ calls body schedule (start items p), body c.1 c.2 = body' c.1 c.2) →
          (start items p).run body schedule = (start items p).run body' schedule)) ∧
    ((∀ i x, items[i]? = some x → ∃ y, body i x = .ok y) →
      ∃ out : Array β, out.size = items.size ∧
        (∀ i x, items[i]? = some x → ∃ y, out[i]? = some y ∧ body i x = .ok y) ∧
        ∀ (p : ThreadParam) (schedule : List Nat),
          ((start items p).run body schedule).ended = true →
            ((start items p).run body schedule).result p = .ok out) ∧
    ((∃ i x e, items[i]? = some x ∧ body i x = .error e) →
      ∀ (p : ThreadParam) (schedule : List Nat),
        ((start items p).run body schedule).ended = true →
          ((start items p).run body schedule).result p =
            report (if p.threads ≤ 1 then .loopStopped else .workerStopped)) ∧
    (∀ (p : ThreadParam) (schedule : List Nat), Busy body schedule (start items p) →
      schedule.length ≤
        items.size + 2 * (batches p.batchSize items.size).length + p.workers) ∧
    (∀ p : ThreadParam, ∃ schedule, ((start items p).run body schedule).ended = true ∧
      parallelFor items p body = ((start items p).run body schedule).result p) := by
  have ran (p : ThreadParam) (schedule : List Nat) :=
    ran_run body schedule (sound_start items p)
  refine ⟨fun p k => getElem?_batches p.batchSize items.size k, fun p schedule => ?_, fun h => ?_,
    ?_, fun p schedule h => ?_, fun p => exists_schedule_parallelFor items p body⟩
  · obtain ⟨lost, hperm, -⟩ := (ran p schedule).owed
    have hnodup := hperm.nodup_iff.2 (sound_start items p).nodup
    exact ⟨(List.nodup_append.1 (List.nodup_append.1 hnodup).1).1, (ran p schedule).original,
      (ran p schedule).untouched, fun body' h => run_congr h⟩
  · obtain ⟨out, hout⟩ := exists_maps h
    exact ⟨out, hout.1, hout.2, fun p schedule hended =>
      (ran p schedule).result_of_maps hended hout⟩
  · rintro ⟨i, x, e, hx, he⟩ p schedule hended
    exact (ran p schedule).result_of_error hended hx he
  · rw [← stepsLeft_start]
    exact length_le_of_busy h

/-- Two workers take turns on three items, in batches of two. With a body that returns, the result
is what it returns on every item. With one that fails on the second item, the loop fails, and the
worker that goes on does the item of the second batch. -/
theorem parallelFor_any_schedule_three :
    let p : ThreadParam := ⟨2, 2⟩
    let body : Nat → Nat → Outcome Nat := fun i x => .ok (10 * x + i)
    let broken : Nat → Nat → Outcome Nat := fun i x =>
      if i = 1 then violate .precondition else .ok (10 * x + i)
    let schedule : List Nat := [0, 1, 1, 0, 1, 0, 0, 0, 1]
    (∃ out, out.toList = [10, 21, 32] ∧
      ((start #[1, 2, 3] p).run body schedule).result p = .ok out) ∧
    ((start #[1, 2, 3] p).run broken schedule).result p = report .workerStopped := by
  intro p body broken schedule
  constructor
  · obtain ⟨out, hsize, hout, hresult⟩ :=
      (parallelFor_any_schedule #[1, 2, 3] body).2.2.1 fun i x _ => ⟨10 * x + i, rfl⟩
    refine ⟨out, ?_, hresult p schedule (by decide +kernel)⟩
    have hget (i x : Nat) (hx : (#[1, 2, 3] : Array Nat)[i]? = some x) :
        out[i]? = some (10 * x + i) := by
      obtain ⟨y, hy, heq⟩ := hout i x hx
      cases heq
      exact hy
    have hthree : out = #[10, 21, 32] := by
      apply Array.ext_getElem?
      intro i
      match i with
      | 0 => exact hget 0 1 rfl
      | 1 => exact hget 1 2 rfl
      | 2 => exact hget 2 3 rfl
      | i + 3 => simp [hsize]
    rw [hthree]
  · exact (parallelFor_any_schedule #[1, 2, 3] broken).2.2.2.1 ⟨1, 2, _, rfl, rfl⟩ p schedule
      (by decide +kernel)

end RadianceTransfer
