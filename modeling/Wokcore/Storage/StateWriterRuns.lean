import Wokcore.Storage.StateWriter

/-!
# What the single writer guarantees

For every sequence of submissions, wake-ups of the writer, closings and its end, from a new writer:

* the commands that were run are, in order, the first of those that were accepted, each once, and
  each found the store that the one before it left;
* a submission that was refused is not run;
* when a shutdown is acknowledged every command that was accepted has been run;
* a receipt tells the truth exactly if what fails after the operation's first transaction fails
  harmlessly.

The last point is where the writer falls short. A checkpoint of the WAL, the cleanup that follows a
batch of supplemental metadata, and the provider metadata that follow request metrics come after a
transaction of the operation; when one of them fails the receipt is an error, although the store
holds what the operation wrote.
-/

set_option autoImplicit false

namespace Wokcore.Storage.StateWriter

open Lib Storage.Sessions Operation Transaction List

variable {σ ε υ : Type} {op : Operation σ ε υ} {env : Environment ε} {s s' before : σ} {e : ε}
    {value : υ}

/-! ## Receipts -/

/-- The operation was applied to a store and returned a value. -/
def Operation.Applied (op : Operation σ ε υ) (s : σ) (value : υ) (s' : σ) : Prop :=
  ∃ s₁, op.first.run s = (.ok value, s₁) ∧ attemptAll (fun _ => none) op.rest s₁ = (.ok (), s')

/-- An answer and a store tell the truth about an operation: a value is that of an operation that
    was applied, and an error says that the store is as it was. -/
def Operation.Reports (op : Operation σ ε υ) (before : σ) : Except ε υ × σ → Prop
  | (.ok value, after) => op.Applied before value after
  | (.error _, after) => after = before

/-- The receipt of a command tells the truth. Commands that are not operations leave the store. -/
def Ran.Truthful (r : Ran σ ε υ) : Prop :=
  match r.command with
  | .execute op => op.Reports r.before (op.execute r.env r.before)
  | _ => r.after = r.before

/-- The passive checkpoint after an operation fails. -/
def Environment.CheckpointFails (env : Environment ε) : Prop :=
  match env.walSizeBytes with
  | .error _ => True
  | .ok size => walCheckpointThresholdBytes ≤ size ∧ env.checkpointPassive.isOk = false

/-- What fails from here on finds the store as it was before the operation: a transaction of `rest`,
    or the checkpoint when all of them succeed. -/
def HarmlessFrom (env : Environment ε) (before : σ) : (Nat → Option ε) →
    List (Transaction σ ε Unit) → σ → Prop
  | _, [], s => env.CheckpointFails → s = before
  | faults, t :: rest, s =>
      match t.attempt (faults 0) s with
      | (.error _, _) => s = before
      | (.ok _, s) => HarmlessFrom env before (fun n => faults (n + 1)) rest s

/-- What fails after the first transaction of an operation finds a store that nothing has
    changed. -/
def Operation.Harmless (env : Environment ε) (op : Operation σ ε υ) (s : σ) : Prop :=
  ∀ value s', op.first.run s = (.ok value, s') → HarmlessFrom env s
    (fun n => env.faults (n + 1)) op.rest s'

/-- The failures that a command meets are harmless: its first transaction fails, or nothing it
    changed is misreported. -/
def Ran.Harmless (r : Ran σ ε υ) : Prop :=
  match r.command with
  | .execute op => r.env.faults 0 = none → op.Harmless r.env r.before
  | _ => True

theorem checkpoint_eq_ok (env : Environment ε) :
    (∃ result, checkpointPassiveIfAtLeast walCheckpointThresholdBytes env = .ok result) ↔
      ¬env.CheckpointFails := by
  unfold checkpointPassiveIfAtLeast Environment.CheckpointFails
  cases env.walSizeBytes with
  | error e => simp [bind, Except.bind]
  | ok size =>
    by_cases hsmall : size < walCheckpointThresholdBytes
    · have hnot : ¬walCheckpointThresholdBytes ≤ size := Nat.not_le.mpr hsmall
      simp [bind, Except.bind, hsmall, hnot, pure, Except.pure]
    · have hlarge : walCheckpointThresholdBytes ≤ size := Nat.not_lt.mp hsmall
      cases env.checkpointPassive with
      | error e => simp [bind, Except.bind, hsmall, hlarge, Except.isOk, Except.toBool]
      | ok result => simp [bind, Except.bind, hsmall, Except.isOk, Except.toBool, pure, Except.pure]

/-- The answer of an operation whose own result is known. -/
theorem execute_of_perform_ok (h : op.perform env s = (.ok value, s')) :
    (¬env.CheckpointFails → op.execute env s = (.ok value, s')) ∧
      (env.CheckpointFails → ∃ e, op.execute env s = (.error e, s')) := by
  constructor
  · intro hnot
    obtain ⟨result, hok⟩ := (checkpoint_eq_ok env).mpr hnot
    simp only [execute, h, hok]
  · intro hfails
    cases hcheckpoint : checkpointPassiveIfAtLeast walCheckpointThresholdBytes env with
    | ok result => exact absurd hfails ((checkpoint_eq_ok env).mp ⟨result, hcheckpoint⟩)
    | error e => exact ⟨e, by simp only [execute, h, hcheckpoint]⟩

/-- An operation that was applied is reported truly, unless a checkpoint fails after it changed the
    store. -/
theorem reports_of_applied (hperform : op.perform env s = (.ok value, s'))
    (happlied : op.Applied s value s') :
    op.Reports s (op.execute env s) ↔ (env.CheckpointFails → s' = s) := by
  obtain ⟨hok, herror⟩ := execute_of_perform_ok hperform
  by_cases hfails : env.CheckpointFails
  · obtain ⟨e, hexecute⟩ := herror hfails
    rw [hexecute]
    exact ⟨fun hsame _ => hsame, fun hsame => hsame hfails⟩
  · rw [hok hfails]
    exact ⟨fun _ hcheckpoint => absurd hcheckpoint hfails, fun _ => happlied⟩

theorem reports_of_error (hperform : op.perform env s = (.error e, s')) :
    op.Reports s (op.execute env s) ↔ s' = s := by
  rw [execute, hperform]
  rfl

theorem attempt_eq_ok {α : Type} {t : Transaction σ ε α} {fault : Option ε} {a : α}
    (h : t.attempt fault s = (.ok a, s')) : t.run s = (.ok a, s') := by
  cases fault with
  | none => exact h
  | some e => cases h

theorem attempt_eq_error {α : Type} {t : Transaction σ ε α} {fault : Option ε}
    (h : t.attempt fault s = (.error e, s')) : s' = s := by
  cases fault with
  | none => exact t.atomic s e s' h
  | some e =>
    cases h
    rfl

section Rest

variable {faults : Nat → Option ε} {rest : List (Transaction σ ε Unit)}

theorem harmlessFrom_of_error (h : attemptAll faults rest s = (.error e, s')) :
    HarmlessFrom env before faults rest s ↔ s' = before := by
  induction rest generalizing faults s with
  | nil => cases h
  | cons t rest ih =>
    rw [attemptAll] at h
    rw [HarmlessFrom]
    cases hfirst : t.attempt (faults 0) s with
    | mk result s₁ =>
      rw [hfirst] at h
      cases result with
      | error e' =>
        cases h
        rw [attempt_eq_error hfirst]
      | ok a => exact ih h

/-- Transactions of which none fails are all applied, and only the checkpoint is left to fail. -/
theorem harmlessFrom_of_ok {u : Unit} (h : attemptAll faults rest s = (.ok u, s')) :
    (HarmlessFrom env before faults rest s ↔ (env.CheckpointFails → s' = before)) ∧
      attemptAll (fun _ => none) rest s = (.ok (), s') := by
  induction rest generalizing faults s with
  | nil =>
    cases h
    exact ⟨.rfl, rfl⟩
  | cons t rest ih =>
    rw [attemptAll] at h
    rw [HarmlessFrom, attemptAll]
    cases hfirst : t.attempt (faults 0) s with
    | mk result s₁ =>
      rw [hfirst] at h
      cases result with
      | error e' => cases h
      | ok a =>
        rw [Transaction.attempt, attempt_eq_ok hfirst]
        exact ih h

end Rest

theorem Operation.reports_iff (hnone : env.faults 0 = none) :
    op.Reports s (op.execute env s) ↔ op.Harmless env s := by
  cases hrun : op.first.run s with
  | mk result s₁ =>
    have hattempt : op.first.attempt (env.faults 0) s = (result, s₁) := by rw [hnone, ← hrun]; rfl
    cases result with
    | error e =>
      have hperform : op.perform env s = (.error e, s₁) := by rw [perform, hattempt]
      rw [reports_of_error hperform]
      refine iff_of_true (op.first.atomic s e s₁ hrun) ?_
      intro value other hother
      cases hrun.symm.trans hother
    | ok value =>
      have hharmless : op.Harmless env s ↔ HarmlessFrom env s
          (fun n => env.faults (n + 1)) op.rest s₁ := by
        refine ⟨fun h => h value s₁ hrun, fun h other s' hother => ?_⟩
        cases hrun.symm.trans hother
        exact h
      rw [hharmless]
      cases hrest : attemptAll (fun n => env.faults (n + 1)) op.rest s₁ with
      | mk result s₂ =>
        cases result with
        | error e =>
          rw [harmlessFrom_of_error hrest, reports_of_error
            (by simp only [perform, hattempt, hrest]; rfl)]
        | ok u =>
          obtain ⟨hiff, hall⟩ := harmlessFrom_of_ok hrest
          rw [hiff, reports_of_applied (by simp only [perform, hattempt, hrest]) ⟨s₁, hrun, hall⟩]

/-- **When a receipt tells the truth.** -/
theorem Ran.truthful_iff (r : Ran σ ε υ) : r.Truthful ↔ r.Harmless := by
  obtain ⟨number, command, env, before, revision, activity⟩ := r
  cases command with
  | execute op =>
    show op.Reports before (op.execute env before) ↔ (env.faults 0 = none → op.Harmless env before)
    cases hfault : env.faults 0 with
    | some e =>
      have hperform : op.perform env before = (.error e, before) := by
        rw [perform, hfault]
        rfl
      rw [reports_of_error hperform]
      simp
    | none => simpa using reports_iff hfault
  | flush | checkpoint | shutdown => exact iff_of_true rfl trivial

/-! ## Runs -/

/-- Each command finds the store that the one before it left. -/
def Linked : σ → List (Ran σ ε υ) → σ → Prop
  | s, [], s' => s' = s
  | s, r :: rest, s' => r.before = s ∧ Linked r.after rest s'

/-- A command with the number of its submission. -/
def Ran.numbered (r : Ran σ ε υ) : Nat × Command σ ε υ := (r.number, r.command)

/-- **The invariant of the writer.** -/
structure Orderly (initial : σ) (s : Delivery σ ε υ) : Prop where
  carried : Channel.Carried s.accepted (s.ran.map Ran.numbered) s.channel
  increasing : (s.accepted.map Prod.fst).Pairwise (· < ·)
  acceptedBefore : ∀ item ∈ s.accepted, item.1 < s.submitted
  refusedBefore : ∀ item ∈ s.refused, item.1 < s.submitted
  disjoint : ∀ item ∈ s.refused, item.1 ∉ s.accepted.map Prod.fst
  linked : Linked initial s.ran s.store
  /-- After an acknowledgement nothing is accepted and nothing is run. -/
  acknowledged : s.acknowledged = true →
    s.ran.map Ran.numbered = s.accepted ∧ s.channel.closed = true ∧ s.running = false

section Steps

variable {initial : σ} {s : State σ ε υ} {d : Delivery σ ε υ} {r : Ran σ ε υ}

theorem Linked.concat {s s' : σ} {rest : List (Ran σ ε υ)} (h : Linked s rest s')
    (hr : r.before = s') :
    Linked s (rest ++ [r]) r.after := by
  induction rest generalizing s with
  | nil =>
    have hsame : s' = s := h
    exact ⟨hr.trans hsame, rfl⟩
  | cons first rest ih => exact ⟨h.1, ih h.2⟩

theorem Orderly.start (initial : σ) (now : Nat) :
    Orderly initial (State.start initial now : State σ ε υ).toDelivery where
  carried := rfl
  increasing := .nil
  acceptedBefore := fun _ h => absurd h not_mem_nil
  refusedBefore := fun _ h => absurd h not_mem_nil
  disjoint := fun _ h => absurd h not_mem_nil
  linked := rfl
  acknowledged := nofun

/-- The numbers stay below that of the next submission. -/
theorem before_concat {β : Type*} {items : List (Nat × β)} {next : Nat}
    (h : ∀ item ∈ items, item.1 < next) (b : β) :
    ∀ item ∈ items ++ [(next, b)], item.1 < next + 1 := by
  intro item hitem
  rcases mem_append.mp hitem with hold | hlast
  · exact Nat.lt_succ_of_lt (h item hold)
  · rw [mem_singleton.mp hlast]
    exact Nat.lt_succ_self _

section

variable (h : Orderly initial s.toDelivery)
include h

theorem Orderly.trySend (command : Command σ ε υ) :
    Orderly initial (s.trySend command).1.toDelivery := by
  rw [State.trySend]
  split
  · next channel hsend =>
    obtain ⟨hopen, -, -⟩ := Channel.trySend_eq_ok.mp hsend
    refine ⟨h.carried.trySend hsend, ?_, before_concat h.acceptedBefore _, ?_, ?_, h.linked, ?_⟩
    · rw [map_append, pairwise_append]
      refine ⟨h.increasing, pairwise_singleton _ _, ?_⟩
      intro number hnumber other hother
      obtain ⟨item, hitem, rfl⟩ := mem_map.mp hnumber
      obtain rfl := mem_singleton.mp hother
      exact h.acceptedBefore item hitem
    · exact fun item hitem => Nat.lt_succ_of_lt (h.refusedBefore item hitem)
    · intro item hitem hmem
      rw [map_append, mem_append] at hmem
      rcases hmem with hold | hlast
      · exact h.disjoint item hitem hold
      · have hnumber : item.1 = s.submitted := mem_singleton.mp hlast
        exact absurd (h.refusedBefore item hitem) (by omega)
    · intro hacknowledged
      cases hopen.symm.trans (h.acknowledged hacknowledged).2.1
  · next e hsend =>
    refine ⟨h.carried, h.increasing, ?_, before_concat h.refusedBefore _, ?_, h.linked,
      h.acknowledged⟩
    · exact fun item hitem => Nat.lt_succ_of_lt (h.acceptedBefore item hitem)
    · intro item hitem hmem
      rcases mem_append.mp hitem with hold | hlast
      · exact h.disjoint item hold hmem
      · obtain rfl := mem_singleton.mp hlast
        obtain ⟨other, hother, hsame⟩ := mem_map.mp hmem
        exact absurd (h.acceptedBefore other hother) (by omega)

theorem Orderly.tryExecute (op : Operation σ ε υ) (now : Nat) :
    Orderly initial (s.tryExecute op now).1.toDelivery := by
  have hsend := h.trySend (.execute op)
  rw [State.tryExecute]
  split
  · next s' hs =>
    rw [hs] at hsend
    exact hsend
  · next s' hs =>
    rw [hs] at hsend
    exact hsend

theorem Orderly.tryRecord (ops : StoreOperations σ ε υ) (metadata : Supplements) (now : Nat) :
    Orderly initial (s.tryRecordRequestSupplementalBatch ops metadata now).toDelivery := by
  rw [State.tryRecordRequestSupplementalBatch]
  split
  · next s' hs =>
    have hexecute : Orderly initial (s', true).1.toDelivery := hs ▸ h.tryExecute _ now
    simp only [apply_ite State.toDelivery, ite_self]
    exact hexecute
  · next s' hs =>
    have hexecute : Orderly initial (s', false).1.toDelivery := hs ▸ h.tryExecute _ now
    exact hexecute

theorem Orderly.shutdown : Orderly initial s.shutdown.toDelivery := by
  rw [State.shutdown]
  split
  · split
    · exact h
    · exact h.trySend .shutdown
  · exact h

end

/-- A channel that is closed carries what it carried. -/
theorem Orderly.close (h : Orderly initial d) {running : Bool} (hrunning : running = true →
    d.running = true) :
    Orderly initial { d with channel := d.channel.close, running } := by
  refine { h with carried := h.carried.close, acknowledged := fun hdone => ?_ }
  obtain ⟨hall, -, hended⟩ := h.acknowledged hdone
  refine ⟨hall, rfl, ?_⟩
  cases running with
  | false => rfl
  | true => cases hended.symm.trans (hrunning rfl)

theorem Orderly.not_acknowledged (h : Orderly initial d) (hrunning : d.running = true) :
    d.acknowledged = false := by
  cases hdone : d.acknowledged with
  | false => rfl
  | true => cases hrunning.symm.trans (h.acknowledged hdone).2.2

/-- The writer takes the next command. -/
theorem Orderly.take (h : Orderly initial d) (hrunning : d.running = true)
    {channel : Channel (Nat × Command σ ε υ)} (hrecv : d.channel.recv = .item r.numbered channel)
    (hbefore : r.before = d.store) :
    Orderly initial { d with channel, store := r.after, ran := d.ran ++ [r] } := by
  refine { h with
    carried := ?_, linked := h.linked.concat hbefore, acknowledged := fun hdone => ?_ }
  · rw [map_append]
    exact h.carried.recv hrecv
  · cases (h.not_acknowledged hrunning).symm.trans hdone

variable (h : Orderly initial s.toDelivery)
include h

theorem Orderly.runOne (env : Environment ε) : Orderly initial (s.runOne env).toDelivery := by
  rw [State.runOne]
  split
  · next hrunning =>
    split
    · exact h
    · next hrecv =>
      obtain ⟨-, hclosed⟩ := Channel.recv_eq_finished.mp hrecv
      exact { h with acknowledged := fun _ => ⟨h.carried.finished hrecv, hclosed, rfl⟩ }
    · next number command channel hrecv =>
      have htake := h.take hrunning
        (r := ⟨number, command, env, s.store, s.activityRevision, s.lastActivityAt⟩) hrecv rfl
      cases command with
      | execute | flush | checkpoint => exact htake
      | shutdown => exact htake.close id
  · exact h

theorem Orderly.step (ops : StoreOperations σ ε υ) (event : Event σ ε υ) :
    Orderly initial (s.step ops event).toDelivery := by
  cases event with
  | execute op now => exact h.tryExecute op now
  | recordRequestSupplementalBatch metadata now => exact h.tryRecord ops metadata now
  | flush => exact h.trySend .flush
  | checkpoint truncateIfIdleFor => exact h.trySend _
  | shutdown => exact h.shutdown
  | runOne env => exact h.runOne env
  | close =>
    rw [State.step]
    split
    · exact h.close id
    · exact h
  | drop => exact h.close nofun

theorem Orderly.run (ops : StoreOperations σ ε υ) (events : List (Event σ ε υ)) :
    Orderly initial (s.run ops events).toDelivery := by
  induction events generalizing s with
  | nil => exact h
  | cons event events ih => exact ih (h.step ops event)

end Steps

/-- **What the writer guarantees**, for every operation that a client submits. -/
structure Delivered (initial : σ) (s : Delivery σ ε υ) : Prop where
  /-- The commands that were run are the first of those that were accepted, in the same order. -/
  order : ∃ waiting, s.accepted = s.ran.map Ran.numbered ++ waiting
  /-- No submission is run twice. -/
  once : (s.ran.map Ran.number).Nodup
  /-- Each command found the store that the one before it left, and the store is what the last one
      left. -/
  linked : Linked initial s.ran s.store
  /-- A submission that was refused is not run. -/
  refused : ∀ number e, (number, e) ∈ s.refused → number ∉ s.ran.map Ran.number
  /-- When a shutdown is acknowledged, everything that was accepted has been run. -/
  acknowledged : s.acknowledged = true → s.ran.map Ran.numbered = s.accepted

theorem Orderly.delivered {initial : σ} {s : Delivery σ ε υ} (h : Orderly initial s) :
    Delivered initial s := by
  have hnumbers : (s.ran.map Ran.number).Sublist (s.accepted.map Prod.fst) := by
    have haccepted : s.accepted = s.ran.map Ran.numbered ++ s.channel.queue := h.carried
    rw [haccepted, map_append, map_map]
    exact sublist_append_left _ _
  exact {
    order := ⟨s.channel.queue, h.carried⟩
    once := (h.increasing.sublist hnumbers).imp Nat.ne_of_lt
    linked := h.linked
    refused := fun number e hrefused hran => h.disjoint _ hrefused (hnumbers.subset hran)
    acknowledged := fun hdone => (h.acknowledged hdone).1 }

/-- **The single writer.** Whatever clients submit and whatever the database does, commands are run
    in the order of acceptance, at most once, and not after a refusal; an acknowledged shutdown has
    run them all. All receipts tell the truth exactly if every failure after an operation's first
    transaction is harmless. -/
theorem run_delivered (ops : StoreOperations σ ε υ) (initial : σ) (now : Nat)
    (events : List (Event σ ε υ)) :
    Delivered initial ((State.start initial now).run ops events).toDelivery ∧
      ((∀ r ∈ ((State.start initial now).run ops events).ran, r.Truthful) ↔
        ∀ r ∈ ((State.start initial now).run ops events).ran, r.Harmless) := by
  refine ⟨((Orderly.start initial now).run ops events).delivered, ?_⟩
  exact forall_congr' fun r => imp_congr_right fun _ => r.truthful_iff

section Sample

/-- A store that is a list of numbers, with batches that add how long they are. -/
def sampleOperations : StoreOperations (List Nat) String Nat where
  recordRequestSupplementalBatch metadata :=
    ⟨fun s => (.ok metadata.length, s ++ [metadata.length]), fun _ _ _ h => (by cases h)⟩
  cleanupRequestSupplemental _ _ := ⟨fun s => (.ok (), s), fun _ _ _ h => (by cases h)⟩

/-- A transaction that adds a number. -/
def sampleTransaction : Transaction (List Nat) String Nat :=
  ⟨fun s => (.ok 7, s ++ [7]), fun _ _ _ h => (by cases h)⟩

/-- The WAL has reached its threshold, and the checkpoint fails. -/
def failingCheckpoint : Environment String where
  faults _ := none
  walSizeBytes := .ok walCheckpointThresholdBytes
  checkpointPassive := .error "disk I/O error"
  checkpointTruncate := .ok ()
  now := 1

/-- An operation is applied and its receipt says that it failed. -/
theorem not_truthful_failingCheckpoint :
    ∃ r ∈ ((State.start [] 0).run sampleOperations
        [.execute ⟨sampleTransaction, []⟩ 0, .runOne failingCheckpoint]).ran,
      r.answer = .value (.error "disk I/O error") ∧ r.before = [] ∧ r.after = [7] ∧
        ¬r.Truthful := by
  refine ⟨_, mem_singleton.mpr rfl, rfl, rfl, rfl, ?_⟩
  intro h
  have hsame : ([7] : List Nat) = [] := h
  cases hsame

end Sample

end Wokcore.Storage.StateWriter
