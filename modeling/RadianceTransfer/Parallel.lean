import RadianceTransfer.Failure

/-!
# Loops over a pool of workers

A loop body is run once for every item of an array. The items are cut into batches, which wait in a
queue; workers take a batch, run the body on its items one after the other, and come back for the
next batch until the queue is empty. A worker whose body fails stops where it is.

## Any order of steps

`Pool.step` lets one worker do its next step. Any interleaving of the workers is a list of such
steps, `Pool.run`. The loop itself, `parallelFor`, lets the workers work one after the other; that
no other order gives another result is a matter of proof, since a body sees only its own item.

## Main definitions

* `ThreadParam`: how many workers there are and how large a batch is.
* `Pool`: items, queue and workers.
* `Pool.step`, `Pool.run`: steps of the workers.
* `parallelFor`: the loop.
-/

namespace RadianceTransfer

/-- How a loop is spread over workers. -/
structure ThreadParam where
  /-- How many workers there are, the one that starts the loop included. -/
  threads : UInt32
  /-- How many consecutive items a worker takes at once. -/
  batchSize : Nat

namespace ThreadParam

/-- One worker for each of the given cores, at least one. -/
def allCores (cores : Nat) (batchSize : Nat) : ThreadParam :=
  ⟨max cores.toUInt32 1, batchSize⟩

/-- How many workers there are; the one that starts the loop is always there. -/
def workers (p : ThreadParam) : Nat :=
  max p.threads.toNat 1

end ThreadParam

/-- A range of consecutive items. -/
structure Batch where
  /-- The first item. -/
  start : Nat
  /-- The item after the last one. -/
  stop : Nat
  deriving DecidableEq

/-- What a worker is about to do. -/
inductive Worker where
  /-- Take a batch from the queue. -/
  | waiting
  /-- Go on with a batch at its next item. -/
  | working (next stop : Nat)
  /-- Nothing more, since the queue was empty. -/
  | finished
  /-- Nothing more, since the body failed. -/
  | stopped
  deriving DecidableEq

namespace Worker

/-- Whether a worker has something left to do. -/
def active : Worker → Bool
  | waiting => true
  | working _ _ => true
  | finished => false
  | stopped => false

end Worker

/-- The state of a loop. -/
structure Pool (β : Type) where
  /-- The items as they are now. -/
  items : Array β
  /-- The batches that no worker has taken yet. -/
  queue : List Batch
  /-- What the workers are about to do. -/
  workers : Array Worker

namespace Pool

variable {β : Type}

/-- The batches from a position to the end. -/
def batchesFrom (size : Nat) (start : Nat) : Nat → List Batch
  | 0 => []
  | rest + 1 =>
    ⟨start, start + min (size + 1) (rest + 1)⟩ ::
      batchesFrom size (start + (size + 1)) (rest - size)
termination_by rest => rest

/-- The batches of a number of items. A batch holds at least one item. -/
def batches (batchSize count : Nat) : List Batch :=
  batchesFrom (max batchSize 1 - 1) 0 count

/-- The state before the first step. -/
def start (items : Array β) (p : ThreadParam) : Pool β :=
  ⟨items, batches p.batchSize items.size, Array.replicate p.workers .waiting⟩

/-- Lets one worker do its next step. -/
@[specialize] def step (body : Nat → β → Outcome β) (pool : Pool β) (w : Nat) : Pool β :=
  match pool.workers[w]? with
  | some .waiting =>
    match pool.queue with
    | [] => { pool with workers := pool.workers.setIfInBounds w .finished }
    | b :: queue =>
      { pool with queue, workers := pool.workers.setIfInBounds w (.working b.start b.stop) }
  | some (.working next stop) =>
    if next < stop then
      match pool.items[next]? with
      | some item =>
        match body next item with
        | .ok item =>
          { pool with
            items := pool.items.setIfInBounds next item
            workers := pool.workers.setIfInBounds w (.working (next + 1) stop) }
        | .error _ => { pool with workers := pool.workers.setIfInBounds w .stopped }
      | none => { pool with workers := pool.workers.setIfInBounds w .stopped }
    else { pool with workers := pool.workers.setIfInBounds w .waiting }
  | _ => pool

/-- Lets workers do steps in a given order. -/
@[specialize] def run (body : Nat → β → Outcome β) (schedule : List Nat) (pool : Pool β) : Pool β :=
  schedule.foldl (step body) pool

/-- Whether every worker has come to its end. -/
def ended (pool : Pool β) : Bool :=
  pool.workers.all fun w => !w.active

/-- The items when every worker has come to its end, unless one of them stopped. -/
def result (p : ThreadParam) (pool : Pool β) : Outcome (Array β) :=
  if pool.workers.any (· == .stopped) then
    report (if p.threads ≤ 1 then .loopStopped else .workerStopped)
  else .ok pool.items

/-- Lets one worker do steps until it comes to its end, at most as many as allowed. -/
@[specialize] def drain (body : Nat → β → Outcome β) (w : Nat) : Nat → Pool β → Pool β
  | 0, pool => pool
  | steps + 1, pool =>
    if (pool.workers[w]?.any Worker.active) then drain body w steps (pool.step body w) else pool

/-- As many steps as one worker can do: one for each item, two for each batch, and one to find the
queue empty. -/
def stepBound (pool : Pool β) : Nat :=
  pool.items.size + 2 * pool.queue.length + 1

end Pool

/-- Runs a body on every item. Each run has its own item to itself. If it fails on any item, the
loop fails. -/
@[specialize] def parallelFor {β : Type} (items : Array β) (p : ThreadParam)
    (body : Nat → β → Outcome β) : Outcome (Array β) :=
  let pool := Pool.start items p
  let bound := pool.stepBound
  let pool := (List.range p.workers).foldl (fun pool w => pool.drain body w bound) pool
  pool.result p

end RadianceTransfer
