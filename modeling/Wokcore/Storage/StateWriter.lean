import Wokcore.Lib.Channel
import Wokcore.Storage.SessionRecords

/-!
# The single writer of the state store (`crates/wokcore-storage/src/state/writer.rs`)

Clients submit operations to a channel of four places, and one writer takes them out and runs them
on the store. An operation answers through its receipt: with the result of its own transactions, and
with the failure of the WAL checkpoint that follows them.

The contents of the store, the errors and the values are left abstract. A `Transaction` is a
function on the contents that changes nothing when it answers with an error. What the database does
while a command runs (whether a transaction fails, how large the WAL is, whether a checkpoint fails)
is given by an `Environment`; a checkpoint moves pages from the WAL and changes no contents.
Instants are numbers of milliseconds.
-/

set_option autoImplicit false

namespace Wokcore.Storage.StateWriter

open Lib Storage.Sessions

/-- `STATE_STORE_WRITER_QUEUE_CAPACITY`. -/
def stateStoreWriterQueueCapacity : Nat := 4

/-- `SUPPLEMENTAL_CLEANUP_INTERVAL`. -/
def supplementalCleanupInterval : Nat := 60000

/-- `WAL_CHECKPOINT_THRESHOLD_BYTES`. -/
def walCheckpointThresholdBytes : Nat := 16 * 1024 * 1024

variable {σ ε υ : Type}

/-! ## Transactions -/

/-- A transaction on the contents of the store. -/
structure Transaction (σ ε υ : Type) where
  run : σ → Except ε υ × σ
  atomic : ∀ s e s', run s = (.error e, s') → s' = s

/-- What the database does while a command runs. -/
structure Environment (ε : Type) where
  /-- The failures of the transactions of an operation, by their numbers. -/
  faults : Nat → Option ε
  walSizeBytes : Except ε Nat
  checkpointPassive : Except ε Unit
  checkpointTruncate : Except ε Unit
  now : Nat

variable (t : Transaction σ ε υ)

/-- A transaction that the database may make fail. -/
def Transaction.attempt (fault : Option ε) (s : σ) : Except ε υ × σ :=
  match fault with
  | some e => (.error e, s)
  | none => t.run s

/-- `checkpoint_passive_if_at_least`. -/
def checkpointPassiveIfAtLeast (threshold : Nat) (env : Environment ε) : Except ε (Option Unit) :=
    do
  let size ← env.walSizeBytes
  if size < threshold then return none
  else
    let result ← env.checkpointPassive
    return some result

/-- The two operations of the store that the writer itself names. -/
structure StoreOperations (σ ε υ : Type) where
  recordRequestSupplementalBatch : Supplements → Transaction σ ε υ
  cleanupRequestSupplemental : String → Nat → Transaction σ ε Unit

/-! ## Commands -/

/-- The closure that a client submits: a transaction, and transactions after it, of which each is
    run if those before it succeed. -/
structure Operation (σ ε υ : Type) where
  first : Transaction σ ε υ
  rest : List (Transaction σ ε Unit)

/-- Transactions up to the first that fails. -/
def attemptAll : (Nat → Option ε) → List (Transaction σ ε Unit) → σ → Except ε Unit × σ
  | _, [], s => (.ok (), s)
  | faults, t :: rest, s =>
      match t.attempt (faults 0) s with
      | (.error e, s) => (.error e, s)
      | (.ok _, s) => attemptAll (fun n => faults (n + 1)) rest s

/-- The operation alone. -/
def Operation.perform (env : Environment ε) (op : Operation σ ε υ) (s : σ) : Except ε υ × σ :=
  match op.first.attempt (env.faults 0) s with
  | (.error e, s) => (.error e, s)
  | (.ok value, s) =>
      match attemptAll (fun n => env.faults (n + 1)) op.rest s with
      | (.error e, s) => (.error e, s)
      | (.ok _, s) => (.ok value, s)

/-- The command of `try_execute`: the operation, and the checkpoint after it. -/
def Operation.execute (env : Environment ε) (op : Operation σ ε υ) (s : σ) : Except ε υ × σ :=
  match op.perform env s with
  | (.error e, s) => (.error e, s)
  | (.ok value, s) =>
      match checkpointPassiveIfAtLeast walCheckpointThresholdBytes env with
      | .ok _ => (.ok value, s)
      | .error e => (.error e, s)

/-- `StateStoreCommand`. -/
inductive Command (σ ε υ : Type) where
  | execute (op : Operation σ ε υ)
  | flush
  | checkpoint (expectedActivityRevision : Nat) (truncateIfIdleFor : Option Nat)
  | shutdown

/-- What a receipt gets. -/
inductive Answer (ε υ : Type) where
  | value (result : Except ε υ)
  | done (result : Except ε Unit)
  /-- A shutdown is acknowledged later. -/
  | later

/-! ## The writer and its clients -/

/-- A command that the writer has taken out of the channel, with what it found. -/
structure Ran (σ ε υ : Type) where
  number : Nat
  command : Command σ ε υ
  env : Environment ε
  before : σ
  activityRevision : Nat
  lastActivityAt : Nat

/-- The store and the channel. A submission has a number, and what was submitted, refused and run is
    remembered. -/
structure Delivery (σ ε υ : Type) where
  store : σ
  channel : Channel (Nat × Command σ ε υ)
  /-- The writer has not ended. -/
  running : Bool
  submitted : Nat
  accepted : List (Nat × Command σ ε υ)
  refused : List (Nat × Channel.SendError)
  ran : List (Ran σ ε υ)
  acknowledged : Bool

/-- What the clients and the writer share. -/
structure State (σ ε υ : Type) extends Delivery σ ε υ where
  activityRevision : Nat
  lastActivityAt : Nat
  lastSupplementalCleanupAt : Option Nat
  shutdownAcknowledgement : Bool
  /-- The only handle for a shutdown is still there. -/
  handle : Bool

def State.start (store : σ) (now : Nat) : State σ ε υ :=
  { store, channel := ⟨[], false⟩, activityRevision := 0, lastActivityAt := now
    lastSupplementalCleanupAt := none, shutdownAcknowledgement := false, handle := true
    running := true, submitted := 0, accepted := [], refused := [], ran := []
    acknowledged := false }

/-- What a checkpoint command does: a passive checkpoint, and a truncating one when nothing happened
    meanwhile. -/
def runCheckpoint (env : Environment ε) (expectedActivityRevision : Nat)
    (truncateIfIdleFor : Option Nat) (activityRevision lastActivityAt : Nat) : Except ε Unit := do
  let _ ← checkpointPassiveIfAtLeast walCheckpointThresholdBytes env
  if expectedActivityRevision = activityRevision ∧
      (truncateIfIdleFor.any fun duration =>
        decide (env.now - lastActivityAt ≥ duration)) = true then
    env.checkpointTruncate

/-- The answer of a command, and the store after it. -/
def Ran.result (r : Ran σ ε υ) : Answer ε υ × σ :=
  match r.command with
  | .execute op => (op.execute r.env r.before).map .value id
  | .flush => (.done (.ok ()), r.before)
  | .checkpoint expected idle =>
      (.done (runCheckpoint r.env expected idle r.activityRevision r.lastActivityAt), r.before)
  | .shutdown => (.later, r.before)

def Ran.answer (r : Ran σ ε υ) : Answer ε υ := r.result.1

def Ran.after (r : Ran σ ε υ) : σ := r.result.2

/-- `observe_activity`; the counter stays at its greatest value. -/
def State.observeActivity (now : Nat) (s : State σ ε υ) : State σ ε υ :=
  { s with
    lastActivityAt := now
    activityRevision := if s.activityRevision + 1 < 2 ^ 64 then s.activityRevision + 1
      else s.activityRevision }

/-- `try_send` of a command, with the number of its submission. -/
def State.trySend (command : Command σ ε υ) (s : State σ ε υ) : State σ ε υ × Bool :=
  match s.channel.trySend stateStoreWriterQueueCapacity (s.submitted, command) with
  | .ok channel =>
      ({ s with
        channel, submitted := s.submitted + 1, accepted := s.accepted ++ [(s.submitted, command)] },
        true)
  | .error e =>
    ({ s with submitted := s.submitted + 1, refused := s.refused ++ [(s.submitted, e)] }, false)

/-- `try_execute`. -/
def State.tryExecute (op : Operation σ ε υ) (now : Nat) (s : State σ ε υ) : State σ ε υ × Bool :=
  match s.trySend (.execute op) with
  | (s, true) => (s.observeActivity now, true)
  | (s, false) => (s, false)

/-- The latest time of a batch. -/
def latest (metadata : Supplements) : Option String :=
  match metadata.map (·.occurredAt) with
  | [] => none
  | time :: times => some (times.foldl (fun best time => if time < best then best else time) time)

/-- `try_record_request_supplemental_batch`. -/
def State.tryRecordRequestSupplementalBatch (ops : StoreOperations σ ε υ)
    (metadata : Supplements) (now : Nat) (s : State σ ε υ) : State σ ε υ :=
  let due := (s.lastSupplementalCleanupAt.all fun last =>
    decide (now - last ≥ supplementalCleanupInterval)) = true
  let cleanup := if due then latest metadata else none
  let op := ⟨ops.recordRequestSupplementalBatch metadata,
    (cleanup.map fun time => ops.cleanupRequestSupplemental time maxSessionBatchRows).toList⟩
  match s.tryExecute op now with
  | (s, true) => if cleanup.isSome then { s with lastSupplementalCleanupAt := some now } else s
  | (s, false) => s

/-- `run_one`, when the writer is woken. -/
def State.runOne (env : Environment ε) (s : State σ ε υ) : State σ ε υ :=
  if s.running then
    match s.channel.recv with
    | .waiting => s
    | .finished =>
        { s with running := false, acknowledged := s.acknowledged || s.shutdownAcknowledgement,
                 shutdownAcknowledgement := false }
    | .item (number, command) channel =>
        let r : Ran σ ε υ := ⟨number, command, env, s.store, s.activityRevision, s.lastActivityAt⟩
        let s := { s with channel, store := r.after, ran := s.ran ++ [r] }
        match command with
        | .execute _ => s.observeActivity env.now
        | .shutdown => { s with channel := channel.close, shutdownAcknowledgement := true }
        | _ => s
  else s

/-- `shutdown`. The handle is used up when the command is accepted or refused; a full channel makes
    it wait. -/
def State.shutdown (s : State σ ε υ) : State σ ε υ :=
  if s.handle then
    match s.channel.trySend stateStoreWriterQueueCapacity (s.submitted, .shutdown) with
    | .error .full => s
    | _ => { (s.trySend .shutdown).1 with handle := false }
  else s

/-- What clients and the writer do. -/
inductive Event (σ ε υ : Type) where
  | execute (op : Operation σ ε υ) (now : Nat)
  | recordRequestSupplementalBatch (metadata : Supplements) (now : Nat)
  | flush
  | checkpoint (truncateIfIdleFor : Option Nat)
  | shutdown
  | runOne (env : Environment ε)
  | close
  /-- The writer is dropped: what waits is not run, and the channel takes no more. -/
  | drop

def State.step (ops : StoreOperations σ ε υ) (s : State σ ε υ) : Event σ ε υ → State σ ε υ
  | .execute op now => (s.tryExecute op now).1
  | .recordRequestSupplementalBatch metadata now =>
    s.tryRecordRequestSupplementalBatch ops metadata now
  | .flush => (s.trySend .flush).1
  | .checkpoint truncateIfIdleFor =>
    (s.trySend (.checkpoint s.activityRevision truncateIfIdleFor)).1
  | .shutdown => s.shutdown
  | .runOne env => s.runOne env
  | .close => if s.running then { s with channel := s.channel.close } else s
  | .drop =>
    { s with channel := s.channel.close, running := false, shutdownAcknowledgement := false }

def State.run (ops : StoreOperations σ ε υ) (s : State σ ε υ) (events : List (Event σ ε υ)) :
    State σ ε υ :=
  events.foldl (State.step ops) s

end Wokcore.Storage.StateWriter
