import Mathlib
import RadianceTransfer.Parallel

/-!
# What the workers of a loop do

A step of a worker takes a batch, runs the body on the next item of a batch, leaves a batch behind,
or is the last one of the worker. `Pool.Step` says this as a relation with one constructor per
case, labelled with the call of the body that the step makes, and `Pool.step_spec` that the step
function follows it.

The items on which the body has not been run lie in the queue or with a worker, each of them in one
place only. A step takes an item from there exactly if it calls the body on it, and forgets items
only when its worker stops. This is what carries over to runs: `Pool.Ran` says what a number of
steps have done to a loop, a single step has it, and it composes.

## Main definitions

* `Pool.call?`, `Pool.calls`: the calls of the body in a step and in a run.
* `Pool.owed`: the items on which the body has not been run.
* `Pool.Sound`: no item is owed twice, and a worker finishes only with nothing in the queue.
* `Pool.Ran`: what some steps have done.
-/

namespace RadianceTransfer

/-- The items of a batch. -/
def Batch.items (b : Batch) : List Nat :=
  List.range' b.start (b.stop - b.start)

/-- The items of a worker's batch on which the body has not been run. -/
def Worker.owed : Worker → List Nat
  | .working next stop => List.range' next (stop - next)
  | _ => []

@[simp] theorem Worker.owed_waiting : Worker.waiting.owed = [] := rfl

@[simp] theorem Worker.owed_finished : Worker.finished.owed = [] := rfl

@[simp] theorem Worker.owed_stopped : Worker.stopped.owed = [] := rfl

theorem Worker.owed_working {next stop : Nat} (h : next < stop) :
    (Worker.working next stop).owed = next :: (Worker.working (next + 1) stop).owed := by
  show List.range' next (stop - next) = next :: List.range' (next + 1) (stop - (next + 1))
  rw [show stop - next = (stop - (next + 1)) + 1 by omega, List.range'_succ]

namespace Pool

variable {β : Type}

/-! ### Calls of the body -/

/-- The call of the body in the next step of a worker: the number of the item and the item. -/
def call? (pool : Pool β) (w : Nat) : Option (Nat × β) :=
  match pool.workers[w]? with
  | some (.working next stop) =>
    if next < stop then pool.items[next]?.map fun x => (next, x) else none
  | _ => none

/-- The calls of the body in a run, in order. -/
def calls (body : Nat → β → Outcome β) : List Nat → Pool β → List (Nat × β)
  | [], _ => []
  | w :: schedule, pool => (pool.call? w).toList ++ calls body schedule (pool.step body w)

/-- What a step of a worker does, and the call of the body in it. -/
inductive Step (body : Nat → β → Outcome β) (pool : Pool β) (w : Nat) :
    Option (Nat × β) → Pool β → Prop where
  /-- There is no such worker, or it has come to its end. -/
  | idle (hw : pool.workers[w]?.any Worker.active = false) : Step body pool w none pool
  /-- The queue is empty. -/
  | finish (hw : pool.workers[w]? = some .waiting) (hq : pool.queue = []) :
      Step body pool w none { pool with workers := pool.workers.setIfInBounds w .finished }
  /-- The worker takes the batch in front. -/
  | take {b : Batch} {queue : List Batch} (hw : pool.workers[w]? = some .waiting)
      (hq : pool.queue = b :: queue) :
      Step body pool w none
        { pool with queue, workers := pool.workers.setIfInBounds w (.working b.start b.stop) }
  /-- The body returns a new item. -/
  | call {next stop : Nat} {x y : β} (hw : pool.workers[w]? = some (.working next stop))
      (hn : next < stop) (hx : pool.items[next]? = some x) (hy : body next x = .ok y) :
      Step body pool w (some (next, x))
        { pool with
          items := pool.items.setIfInBounds next y
          workers := pool.workers.setIfInBounds w (.working (next + 1) stop) }
  /-- The body fails. -/
  | fail {next stop : Nat} {x : β} {e : Failure} (hw : pool.workers[w]? = some (.working next stop))
      (hn : next < stop) (hx : pool.items[next]? = some x) (he : body next x = .error e) :
      Step body pool w (some (next, x))
        { pool with workers := pool.workers.setIfInBounds w .stopped }
  /-- There is no such item. -/
  | missing {next stop : Nat} (hw : pool.workers[w]? = some (.working next stop))
      (hn : next < stop) (hx : pool.items[next]? = none) :
      Step body pool w none { pool with workers := pool.workers.setIfInBounds w .stopped }
  /-- The batch is done. -/
  | leave {next stop : Nat} (hw : pool.workers[w]? = some (.working next stop))
      (hn : ¬ next < stop) :
      Step body pool w none { pool with workers := pool.workers.setIfInBounds w .waiting }

theorem step_spec (body : Nat → β → Outcome β) (pool : Pool β) (w : Nat) :
    Step body pool w (pool.call? w) (pool.step body w) := by
  unfold call? step
  cases hw : pool.workers[w]? with
  | none => exact .idle (by rw [hw]; rfl)
  | some worker =>
    cases worker with
    | waiting =>
      cases hq : pool.queue with
      | nil =>
        have h : Step body pool w none
            { pool with workers := pool.workers.setIfInBounds w .finished } := .finish hw hq
        rwa [hq] at h
      | cons b queue => exact .take hw hq
    | working next stop =>
      by_cases hn : next < stop
      · simp only [if_pos hn]
        cases hx : pool.items[next]? with
        | none => exact .missing hw hn hx
        | some x =>
          cases hy : body next x with
          | ok y =>
            simp only [hy]
            exact .call hw hn hx hy
          | error e =>
            simp only [hy]
            exact .fail hw hn hx hy
      · simp only [if_neg hn]
        exact .leave hw hn
    | finished => exact .idle (by rw [hw]; rfl)
    | stopped => exact .idle (by rw [hw]; rfl)

theorem step_congr {body body' : Nat → β → Outcome β} {pool : Pool β} {w : Nat}
    (h : ∀ c ∈ pool.call? w, body c.1 c.2 = body' c.1 c.2) :
    pool.step body w = pool.step body' w := by
  unfold call? at h
  unfold step
  cases hw : pool.workers[w]? with
  | none => rfl
  | some worker =>
    cases worker with
    | working next stop =>
      by_cases hn : next < stop
      · simp only [if_pos hn]
        cases hx : pool.items[next]? with
        | none => rfl
        | some x =>
          have hb : body next x = body' next x := h (next, x) (by simp [hw, hn, hx])
          simp only [hb]
      · simp only [if_neg hn]
    | waiting => rfl
    | finished => rfl
    | stopped => rfl

/-- A run depends on nothing of the body but what it does in the calls of the run. -/
theorem run_congr {body body' : Nat → β → Outcome β} {schedule : List Nat} {pool : Pool β}
    (h : ∀ c ∈ calls body schedule pool, body c.1 c.2 = body' c.1 c.2) :
    pool.run body schedule = pool.run body' schedule := by
  induction schedule generalizing pool with
  | nil => rfl
  | cons w schedule ih =>
    have hstep : pool.step body w = pool.step body' w :=
      step_congr fun c hc => h c (List.mem_append_left _ (Option.mem_toList.2 hc))
    show (pool.step body w).run body schedule = (pool.step body' w).run body' schedule
    rw [← hstep]
    exact ih fun c hc => h c (List.mem_append_right _ hc)

/-! ### Items that are owed -/

/-- The items on which the body has not been run and which no worker has left behind: those in the
queue and those that the workers have before them. -/
def owed (pool : Pool β) : List Nat :=
  pool.queue.flatMap Batch.items ++ pool.workers.toList.flatMap Worker.owed

theorem flatMap_set_perm {γ δ : Type} {f : γ → List δ} {l : List γ} {i : Nat} {a : γ}
    (ha : l[i]? = some a) (b : γ) :
    (f a ++ (l.set i b).flatMap f).Perm (f b ++ l.flatMap f) := by
  induction l generalizing i with
  | nil => cases ha
  | cons c l ih =>
    cases i with
    | zero =>
      cases ha
      exact List.perm_append_comm_assoc _ _ _
    | succ i =>
      have hrest : (f a ++ (l.set i b).flatMap f).Perm (f b ++ l.flatMap f) := ih ha
      calc f a ++ (f c ++ (l.set i b).flatMap f)
        _ |>.Perm (f c ++ (f a ++ (l.set i b).flatMap f)) := List.perm_append_comm_assoc _ _ _
        _ |>.Perm (f c ++ (f b ++ l.flatMap f)) := hrest.append_left _
        _ |>.Perm (f b ++ (f c ++ l.flatMap f)) := List.perm_append_comm_assoc _ _ _

/-- What a step does to the items that are owed shows in the queue and in its worker. -/
theorem owed_perm_of_set {pool pool' : Pool β} {w : Nat} {before after : Worker}
    {called lost : List Nat} (hw : pool.workers[w]? = some before)
    (hw' : pool'.workers = pool.workers.setIfInBounds w after)
    (h : (called ++ pool'.queue.flatMap Batch.items ++ after.owed ++ lost).Perm
      (pool.queue.flatMap Batch.items ++ before.owed)) :
    (called ++ pool'.owed ++ lost).Perm pool.owed := by
  have hset : (before.owed ++ (pool.workers.toList.set w after).flatMap Worker.owed).Perm
      (after.owed ++ pool.workers.toList.flatMap Worker.owed) :=
    flatMap_set_perm (by rw [Array.getElem?_toList, hw]) after
  rw [List.perm_iff_count] at *
  intro i
  have hi := h i
  have hseti := hset i
  simp only [owed, hw', Array.toList_setIfInBounds, List.count_append] at *
  omega

variable {body : Nat → β → Outcome β} {pool pool' : Pool β} {w : Nat} {c : Option (Nat × β)}

theorem mem_setIfInBounds_self {worker : Worker} (hw : pool.workers[w]? = some worker)
    (worker' : Worker) : worker' ∈ pool.workers.setIfInBounds w worker' := by
  obtain ⟨hsize, -⟩ := Array.getElem?_eq_some_iff.1 hw
  exact Array.mem_of_getElem? (Array.getElem?_setIfInBounds_self_of_lt hsize)

/-- A step takes the item of its call from those that are owed. It forgets others only if its worker
stops. -/
theorem Step.owed_perm (h : Step body pool w c pool') :
    ∃ lost, (c.toList.map Prod.fst ++ pool'.owed ++ lost).Perm pool.owed ∧
      (lost ≠ [] → Worker.stopped ∈ pool'.workers) := by
  cases h with
  | idle hw => exact ⟨[], by simp, by simp⟩
  | finish hw hq => exact ⟨[], owed_perm_of_set hw rfl (by simp), by simp⟩
  | take hw hq =>
    refine ⟨[], owed_perm_of_set hw rfl ?_, by simp⟩
    simpa [hq, Worker.owed, Batch.items] using List.perm_append_comm
  | call hw hn hx hy =>
    refine ⟨[], owed_perm_of_set hw rfl ?_, by simp⟩
    simpa [Worker.owed_working hn] using List.perm_middle.symm
  | @fail next stop _ _ hw hn hx he =>
    refine ⟨(Worker.working (next + 1) stop).owed, owed_perm_of_set hw rfl ?_,
      fun _ => mem_setIfInBounds_self hw _⟩
    simpa [Worker.owed_working hn] using List.perm_middle.symm
  | @missing next stop hw hn hx =>
    refine ⟨(Worker.working next stop).owed, owed_perm_of_set hw rfl ?_,
      fun _ => mem_setIfInBounds_self hw _⟩
    simp
  | @leave next stop hw hn =>
    refine ⟨[], owed_perm_of_set hw rfl ?_, by simp⟩
    simp [Worker.owed, Nat.sub_eq_zero_of_le (Nat.not_lt.1 hn)]

/-! ### Sound states -/

/-- What holds of a loop between any two steps. -/
structure Sound (pool : Pool β) : Prop where
  /-- No item is owed twice. -/
  nodup : pool.owed.Nodup
  /-- Only items are owed. -/
  lt_size : ∀ i ∈ pool.owed, i < pool.items.size
  /-- A worker finishes only with nothing in the queue. -/
  drained : Worker.finished ∈ pool.workers → pool.queue = []

/-- A worker that has nothing to do does not change. -/
theorem mem_setIfInBounds_of_ne {worker worker' : Worker} {inactive : Worker}
    (hw : pool.workers[w]? = some worker) (hne : inactive ≠ worker) (h : inactive ∈ pool.workers) :
    inactive ∈ pool.workers.setIfInBounds w worker' := by
  obtain ⟨v, hv⟩ := Array.mem_iff_getElem?.1 h
  have hvw : v ≠ w := by
    rintro rfl
    exact hne (Option.some.inj (hv.symm.trans hw))
  exact Array.mem_of_getElem? (i := v) (by rw [Array.getElem?_setIfInBounds_ne hvw.symm, hv])

theorem Step.drained (h : Step body pool w c pool') (hs : pool.Sound)
    (hf : Worker.finished ∈ pool'.workers) : pool'.queue = [] := by
  -- A worker that finishes has just seen the empty queue; else one had finished before.
  have before {worker worker' : Worker} (hw : pool.workers[w]? = some worker)
      (hne : Worker.finished ≠ worker')
      (hf : Worker.finished ∈ pool.workers.setIfInBounds w worker') : pool.queue = [] := by
    rcases Array.mem_or_eq_of_mem_setIfInBounds hf with hf | hf
    · exact hs.drained hf
    · exact absurd hf hne
  cases h with
  | idle hw => exact hs.drained hf
  | finish hw hq => exact hq
  | take hw hq =>
    have hempty := before hw (by simp) hf
    rw [hq] at hempty
    cases hempty
  | call hw hn hx hy => exact before hw (by simp) hf
  | fail hw hn hx he => exact before hw (by simp) hf
  | missing hw hn hx => exact before hw (by simp) hf
  | leave hw hn => exact before hw (by simp) hf

theorem Step.size_items (h : Step body pool w c pool') : pool'.items.size = pool.items.size := by
  cases h <;> simp

theorem Step.size_workers (h : Step body pool w c pool') :
    pool'.workers.size = pool.workers.size := by
  cases h <;> simp

theorem Step.sound (h : Step body pool w c pool') (hs : pool.Sound) : pool'.Sound := by
  obtain ⟨lost, hperm, -⟩ := h.owed_perm
  constructor
  case nodup =>
    have hnodup := hperm.nodup_iff.2 hs.nodup
    exact (List.nodup_append.1 (List.nodup_append.1 hnodup).1).2.1
  case lt_size =>
    intro i hi
    rw [h.size_items]
    exact hs.lt_size i (hperm.subset (by simp [hi]))
  case drained => exact h.drained hs

/-! ### Runs -/

/-- What some steps, in which the body was called as given, have done to a loop. -/
structure Ran (body : Nat → β → Outcome β) (pool : Pool β) (calls : List (Nat × β))
    (last : Pool β) : Prop where
  /-- The state after the steps is sound. -/
  sound : last.Sound
  /-- The items of the calls are no longer owed, and others are forgotten only if a worker has
  stopped. -/
  owed : ∃ lost, (calls.map Prod.fst ++ last.owed ++ lost).Perm pool.owed ∧
    (lost ≠ [] → Worker.stopped ∈ last.workers)
  /-- The number of items does not change. -/
  size_items : last.items.size = pool.items.size
  /-- The number of workers does not change. -/
  size_workers : last.workers.size = pool.workers.size
  /-- Every call was made with the item as it was before the steps. -/
  original : ∀ c ∈ calls, pool.items[c.1]? = some c.2
  /-- An item that was in no call is as it was. -/
  untouched : ∀ i, i ∉ calls.map Prod.fst → last.items[i]? = pool.items[i]?
  /-- What the body returned has taken the place of the item. -/
  returned : ∀ c ∈ calls, ∀ y, body c.1 c.2 = .ok y → last.items[c.1]? = some y
  /-- Where the body failed a worker has stopped. -/
  failed : ∀ c ∈ calls, ∀ e, body c.1 c.2 = .error e → Worker.stopped ∈ last.workers
  /-- A worker that had stopped does not go on. -/
  stays : Worker.stopped ∈ pool.workers → Worker.stopped ∈ last.workers
  /-- Workers stop only where the body fails. -/
  cause : Worker.stopped ∈ last.workers →
    Worker.stopped ∈ pool.workers ∨ ∃ c ∈ calls, ∃ e, body c.1 c.2 = .error e

theorem Ran.refl (hs : pool.Sound) : Ran body pool [] pool := by
  constructor
  case owed => exact ⟨[], by simp, by simp⟩
  case cause => exact Or.inl
  all_goals simp [hs]

theorem Step.original {call : Nat × β} (h : Step body pool w (some call) pool') :
    pool.items[call.1]? = some call.2 := by
  cases h with
  | call hw hn hx hy => exact hx
  | fail hw hn hx he => exact hx

theorem Step.untouched (h : Step body pool w c pool') {i : Nat}
    (hi : i ∉ c.toList.map Prod.fst) : pool'.items[i]? = pool.items[i]? := by
  cases h with
  | @call next stop x y hw hn hx hy =>
    have hne : i ≠ next := by simpa using hi
    exact Array.getElem?_setIfInBounds_ne hne.symm
  | _ => rfl

theorem Step.returned {call : Nat × β} (h : Step body pool w (some call) pool') {y : β}
    (hy : body call.1 call.2 = .ok y) : pool'.items[call.1]? = some y := by
  cases h with
  | call hw hn hx hy' =>
    obtain ⟨hsize, -⟩ := Array.getElem?_eq_some_iff.1 hx
    cases hy.symm.trans hy'
    exact Array.getElem?_setIfInBounds_self_of_lt hsize
  | fail hw hn hx he => cases hy.symm.trans he

theorem Step.failed {call : Nat × β} (h : Step body pool w (some call) pool') {e : Failure}
    (he : body call.1 call.2 = .error e) : Worker.stopped ∈ pool'.workers := by
  cases h with
  | call hw hn hx hy => cases he.symm.trans hy
  | fail hw hn hx he' => exact mem_setIfInBounds_self hw _

theorem Step.stays (h : Step body pool w c pool') (hp : Worker.stopped ∈ pool.workers) :
    Worker.stopped ∈ pool'.workers := by
  cases h with
  | idle hw => exact hp
  | finish hw hq => exact mem_setIfInBounds_of_ne hw (by simp) hp
  | take hw hq => exact mem_setIfInBounds_of_ne hw (by simp) hp
  | call hw hn hx hy => exact mem_setIfInBounds_of_ne hw (by simp) hp
  | fail hw hn hx he => exact mem_setIfInBounds_of_ne hw (by simp) hp
  | missing hw hn hx => exact mem_setIfInBounds_of_ne hw (by simp) hp
  | leave hw hn => exact mem_setIfInBounds_of_ne hw (by simp) hp

/-- The next item of a worker is one that is owed. -/
theorem mem_owed {next stop : Nat} (hw : pool.workers[w]? = some (.working next stop))
    (hn : next < stop) : next ∈ pool.owed := by
  have hmem : Worker.working next stop ∈ pool.workers.toList :=
    Array.mem_toList_iff.2 (Array.mem_of_getElem? hw)
  refine List.mem_append_right _ (List.mem_flatMap.2 ⟨_, hmem, ?_⟩)
  rw [Worker.owed_working hn]
  exact List.mem_cons_self

theorem Step.cause (h : Step body pool w c pool') (hs : pool.Sound)
    (hp : Worker.stopped ∈ pool'.workers) :
    Worker.stopped ∈ pool.workers ∨ ∃ call ∈ c, ∃ e, body call.1 call.2 = .error e := by
  have before {worker' : Worker} (hne : Worker.stopped ≠ worker')
      (hp : Worker.stopped ∈ pool.workers.setIfInBounds w worker') :
      Worker.stopped ∈ pool.workers := by
    rcases Array.mem_or_eq_of_mem_setIfInBounds hp with hp | hp
    · exact hp
    · exact absurd hp hne
  cases h with
  | idle hw => exact .inl hp
  | finish hw hq => exact .inl (before (by simp) hp)
  | take hw hq => exact .inl (before (by simp) hp)
  | call hw hn hx hy => exact .inl (before (by simp) hp)
  | fail hw hn hx he => exact .inr ⟨_, rfl, _, he⟩
  | missing hw hn hx =>
    have hsize := hs.lt_size _ (mem_owed hw hn)
    rw [Array.getElem?_eq_getElem hsize] at hx
    cases hx
  | leave hw hn => exact .inl (before (by simp) hp)

theorem Step.ran (h : Step body pool w c pool') (hs : pool.Sound) :
    Ran body pool c.toList pool' := by
  constructor
  case sound => exact h.sound hs
  case owed => exact h.owed_perm
  case size_items => exact h.size_items
  case size_workers => exact h.size_workers
  case stays => exact h.stays
  case untouched => exact fun i hi => h.untouched hi
  case cause =>
    intro hp
    obtain hp | ⟨call, hcall, he⟩ := h.cause hs hp
    · exact .inl hp
    · exact .inr ⟨call, Option.mem_toList.2 hcall, he⟩
  all_goals
    intro call hcall
    obtain rfl := Option.mem_toList.1 hcall
  case original => exact h.original
  case returned => exact fun y hy => h.returned hy
  case failed => exact fun e he => h.failed he

/-- Steps that follow on others. -/
theorem Ran.trans {calls calls' : List (Nat × β)} {mid last : Pool β} (hs : pool.Sound)
    (h : Ran body pool calls mid) (h' : Ran body mid calls' last) :
    Ran body pool (calls ++ calls') last := by
  obtain ⟨lost, hperm, hlost⟩ := h.owed
  obtain ⟨lost', hperm', hlost'⟩ := h'.owed
  have howed : (calls.map Prod.fst ++ (calls'.map Prod.fst ++ last.owed ++ lost') ++ lost).Perm
      pool.owed := ((hperm'.append_left _).append_right _).trans hperm
  -- No item is in a call of both, since each is owed once only.
  have hdisjoint (i : Nat) (hi : i ∈ calls.map Prod.fst) : i ∉ calls'.map Prod.fst := by
    have hnodup := (List.nodup_append.1 (howed.nodup_iff.2 hs.nodup)).1
    intro hi'
    exact (List.nodup_append.1 hnodup).2.2 i hi i (by simp [hi']) rfl
  constructor
  case sound => exact h'.sound
  case owed =>
    refine ⟨lost' ++ lost, ?_, fun hne => ?_⟩
    · simpa using howed
    · by_cases hl : lost' = []
      · exact h'.stays (hlost (by simpa [hl] using hne))
      · exact hlost' hl
  case size_items => rw [h'.size_items, h.size_items]
  case size_workers => rw [h'.size_workers, h.size_workers]
  case original =>
    intro c hc
    rcases List.mem_append.1 hc with hc | hc
    · exact h.original c hc
    · have hi : c.1 ∉ calls.map Prod.fst := fun hi =>
        hdisjoint c.1 hi (List.mem_map_of_mem hc)
      rw [← h.untouched c.1 hi]
      exact h'.original c hc
  case untouched =>
    intro i hi
    rw [List.map_append, List.mem_append, not_or] at hi
    rw [h'.untouched i hi.2, h.untouched i hi.1]
  case returned =>
    intro c hc y hy
    rcases List.mem_append.1 hc with hc | hc
    · rw [h'.untouched c.1 (hdisjoint c.1 (List.mem_map_of_mem hc))]
      exact h.returned c hc y hy
    · exact h'.returned c hc y hy
  case failed =>
    intro c hc e he
    rcases List.mem_append.1 hc with hc | hc
    · exact h'.stays (h.failed c hc e he)
    · exact h'.failed c hc e he
  case stays => exact fun hp => h'.stays (h.stays hp)
  case cause =>
    intro hp
    rcases h'.cause hp with hp | ⟨c, hc, he⟩
    · rcases h.cause hp with hp | ⟨c, hc, he⟩
      · exact .inl hp
      · exact .inr ⟨c, List.mem_append_left _ hc, he⟩
    · exact .inr ⟨c, List.mem_append_right _ hc, he⟩

/-- A run of any schedule. -/
theorem ran_run (body : Nat → β → Outcome β) (schedule : List Nat) {pool : Pool β}
    (hs : pool.Sound) : Ran body pool (calls body schedule pool) (pool.run body schedule) := by
  induction schedule generalizing pool with
  | nil => exact .refl hs
  | cons w schedule ih =>
    have hstep := (step_spec body pool w).ran hs
    exact hstep.trans hs (ih hstep.sound)

end Pool

end RadianceTransfer
