import Wokcore.Engine.Reconfigure

/-!
# Concurrent selections

`select_from` takes `&self`, so several calls run on one table at a time. Between two of them only
the atomic steps count: each turn of a candidate loop takes one shard lock (`scanOne`), `fetch_add`
draws a number (`drawSequence`), and a second lock acquisition writes the number into the chosen
account (`writeSelection`). A `Pool` is the table and the calls in flight, and one event starts a
call or lets one call make its next atomic step.

The number is drawn outside the lock that it is written under. Two calls that chose one account can
therefore write in the opposite order, and then the account ends with the smaller number and a
selection count the number no longer covers. `InTurn` is the condition that excludes this, and
`selections_in_turn_ordered` is what holds along every run that meets it.
-/

set_option autoImplicit false

namespace Wokcore.Engine

open Lib Wokcore.Core

namespace AccountHealthTable

variable {t : AccountHealthTable} {nowMs : Nat} {args : SelectionArgs} {choice : AccountChoice}

/-- Where a `select_from` call stands between two atomic steps. -/
inductive CallState where
  /-- The candidate loop, with the candidates still to look at. -/
  | scanning (args : SelectionArgs) (rest : List AccountCandidate) (best : Best)
  /-- `mark_selected` has been entered and the number is not drawn yet. -/
  | drawing (args : SelectionArgs) (choice : AccountChoice)
  /-- The number is drawn and the shard is not locked yet. -/
  | writing (args : SelectionArgs) (choice : AccountChoice) (sequence : Nat)
  | finished (result : Selection)

/-- The table and the calls made on it so far. -/
structure Pool where
  table : AccountHealthTable
  calls : List CallState

inductive PoolEvent where
  /-- A new call starts. -/
  | call (candidates : List AccountCandidate) (args : SelectionArgs)
  /-- Call number `i` makes its next atomic step. -/
  | advance (i : Nat)

/-- A scan that made its choice, or failed. -/
def CallState.chosen (args : SelectionArgs) : Selection → CallState
  | .ok choice => .drawing args choice
  | .error e => .finished (.error e)

/-- The next atomic step of one call, `none` once it has returned. -/
def CallState.advance (t : AccountHealthTable) : CallState → Option (AccountHealthTable × CallState)
  | .scanning args [] best => some (t, .chosen args (conclude best))
  | .scanning args (candidate :: rest) best =>
      match scanOne args t candidate best with
      | (t, .next best) => some (t, .scanning args rest best)
      | (t, .choose choice) => some (t, .drawing args choice)
      | (t, .fail e) => some (t, .finished (.error e))
  | .drawing args choice => some (t.drawSequence.1, .writing args choice t.drawSequence.2)
  | .writing args choice sequence =>
      match t.writeSelection choice.accountId sequence args.nowMs with
      | (t, .ok ()) => some (t, .finished (.ok choice))
      | (t, .error e) => some (t, .finished (.error e))
  | .finished _ => none

def poolStep (p : Pool) : PoolEvent → Option Pool
  | .call candidates args => some { p with calls := p.calls ++ [.scanning args candidates none] }
  | .advance i =>
      match p.calls[i]? with
      | none => none
      | some c =>
          match c.advance p.table with
          | none => none
          | some (table, c) => some ⟨table, p.calls.set i c⟩

/-- Call `i` holds a drawn number for an account and has not written it. -/
def Pool.Pending (p : Pool) (i : Nat) (id : AccountId) (sequence : Nat) : Prop :=
  ∃ args choice, p.calls[i]? = some (.writing args choice sequence) ∧ choice.accountId = id

/-- **The condition on a step.** A number is drawn before the counter reaches its end, and a call
    writes its number only when no other call holds a smaller one for the same account. -/
def InTurn (p : Pool) : PoolEvent → Prop
  | .call _ _ => True
  | .advance i =>
      (∀ args choice, p.calls[i]? = some (.drawing args choice) →
        p.table.selectionSequence < u64Max) ∧
      (∀ id n, p.Pending i id n → ∀ j m, p.Pending j id m → n ≤ m)

/-! ## What a step can do -/

/-- One atomic step of a call: a scan step that leaves every selection record alone and ends in a
    state without a number, a draw, or a write. -/
theorem CallState.advance_cases {u : AccountHealthTable} {c d : CallState}
    (h : c.advance t = some (u, d)) :
    (∃ nowMs, NormalizedFrom nowMs t u ∧ ∀ args choice n, d ≠ .writing args choice n) ∨
    (∃ args choice, c = .drawing args choice ∧ u = t.drawSequence.1 ∧
      d = .writing args choice t.drawSequence.2) ∨
    (∃ args choice n r, c = .writing args choice n ∧
      u = (t.writeSelection choice.accountId n args.nowMs).1 ∧ d = .finished r) := by
  cases c with
  | scanning args rest best =>
    refine Or.inl ⟨args.nowMs, ?_⟩
    cases rest with
    | nil =>
      obtain ⟨rfl, rfl⟩ := h
      refine ⟨.refl _, ?_⟩
      intro args' choice n hd
      cases best <;> simp [CallState.chosen, conclude] at hd
    | cons candidate rest =>
      have hone := (@scanOne_cases t args candidate best).1
      simp only [CallState.advance] at h
      split at h
      all_goals next heq =>
        rw [heq] at hone
        cases h
        exact ⟨hone, by intros; simp⟩
  | drawing args choice =>
    cases h
    exact Or.inr (Or.inl ⟨args, choice, rfl, rfl, rfl⟩)
  | writing args choice n =>
    simp only [CallState.advance] at h
    split at h
    all_goals next heq =>
      cases h
      exact Or.inr (Or.inr ⟨args, choice, n, _, rfl, by rw [heq], rfl⟩)
  | finished r => exact absurd h (by simp [CallState.advance])

theorem poolStep_advance_inv {p q : Pool} {i : Nat} (h : poolStep p (.advance i) = some q) :
    ∃ c d, p.calls[i]? = some c ∧ c.advance p.table = some (q.table, d) ∧
      q.calls = p.calls.set i d := by
  simp only [poolStep] at h
  split at h
  · cases h
  next c hc =>
  split at h
  · cases h
  next table d hd =>
  cases h
  exact ⟨c, d, hc, hd, rfl⟩

/-- After call `i` moved to `d`, a pending number is the one `d` holds or another call's. -/
theorem Pool.Pending.of_set {p q : Pool} {i j n : Nat} {d : CallState} {id : AccountId}
    (hq : q.calls = p.calls.set i d) (h : q.Pending j id n) :
    (j = i ∧ ∃ args choice, d = .writing args choice n ∧ choice.accountId = id) ∨
      (j ≠ i ∧ p.Pending j id n) := by
  obtain ⟨args, choice, hj, hid⟩ := h
  rw [hq, List.getElem?_set] at hj
  by_cases hij : i = j
  · rw [if_pos hij] at hj
    split at hj
    · cases hj
      exact Or.inl ⟨hij.symm, args, choice, rfl, hid⟩
    · cases hj
  · rw [if_neg hij] at hj
    exact Or.inr ⟨fun h => hij h.symm, args, choice, hj, hid⟩

/-! ## The invariant -/

/-- Selection counts are covered by sequence numbers, numbers in the table and numbers still to be
    written are at most the counter, and a number still to be written is larger than the one it is
    going to replace and held by one call only. -/
structure Pool.Ordered (p : Pool) : Prop where
  count_le : All (fun s => s.selectionCount ≤ s.lastSelectedSequence) p.table
  last_le : All (fun s => s.lastSelectedSequence ≤ p.table.selectionSequence) p.table
  pending_gt : ∀ i id n, p.Pending i id n → ∀ s, p.table.get? id = some s →
    s.lastSelectedSequence < n
  pending_le : ∀ i id n, p.Pending i id n → n ≤ p.table.selectionSequence
  pending_inj : ∀ i j id k n, p.Pending i id n → p.Pending j k n → i = j

/-- Numbers never move back: every account of `p` is in `q`, with a number at least as large. -/
def Pool.NoDecrease (p q : Pool) : Prop :=
  ∀ id s, p.table.get? id = some s →
    ∃ s', q.table.get? id = some s' ∧ s.lastSelectedSequence ≤ s'.lastSelectedSequence

theorem NormalizedFrom.noDecrease {p q : Pool} (h : NormalizedFrom nowMs p.table q.table) :
    p.NoDecrease q := by
  intro id s hs
  rcases h.states id with hq | hq
  · exact ⟨s, hq.trans hs, le_refl _⟩
  · rw [hs] at hq
    exact ⟨s.normalize nowMs, hq, by simp⟩

variable {p q : Pool} {i : Nat} {d : CallState}

/-- A scan step moves no number. -/
theorem Pool.Ordered.scan (h : p.Ordered) (hframe : NormalizedFrom nowMs p.table q.table)
    (hcalls : q.calls = p.calls.set i d) (hd : ∀ args choice n, d ≠ .writing args choice n) :
    q.Ordered := by
  have hpend : ∀ j id n, q.Pending j id n → p.Pending j id n := by
    intro j id n hj
    rcases hj.of_set hcalls with ⟨_, args, choice, hw, _⟩ | ⟨_, hp⟩
    · exact absurd hw (hd args choice n)
    · exact hp
  have hseq := hframe.sequence_eq
  refine ⟨?_, ?_, ?_, ?_, ?_⟩
  · exact hframe.all (fun s hs => by simpa using hs) h.count_le
  · rw [hseq]
    exact hframe.all (fun s hs => by simpa using hs) h.last_le
  · intro j id n hj s hs
    obtain ⟨s₀, hs₀, _, hlast⟩ := hframe.get?_inv hs
    rw [← hlast]
    exact h.pending_gt j id n (hpend j id n hj) s₀ hs₀
  · intro j id n hj
    rw [hseq]
    exact h.pending_le j id n (hpend j id n hj)
  · intro j k id id' n hj hk
    exact h.pending_inj j k id id' n (hpend j id n hj) (hpend k id' n hk)

/-- A draw below the end of the counter takes a number larger than all others. -/
theorem Pool.Ordered.draw (h : p.Ordered) (hlt : p.table.selectionSequence < u64Max)
    (htable : q.table = p.table.drawSequence.1)
    (hcalls : q.calls = p.calls.set i (.writing args choice p.table.drawSequence.2)) :
    q.Ordered := by
  have hseq : q.table.selectionSequence = p.table.selectionSequence + 1 := by
    rw [htable]
    exact wrapAdd_of_le hlt
  have hdrawn : p.table.drawSequence.2 = p.table.selectionSequence + 1 := satAdd_of_le hlt
  have hget : ∀ id, q.table.get? id = p.table.get? id := fun id => by rw [htable]; rfl
  -- A pending number of the new pool is the fresh one, or an old one and so not above the old
  -- counter.
  have hpend : ∀ j id n, q.Pending j id n →
      (j = i ∧ n = p.table.selectionSequence + 1) ∨
      (p.Pending j id n ∧ n ≤ p.table.selectionSequence) := by
    intro j id n hj
    rcases hj.of_set hcalls with ⟨hji, args', choice', hw, _⟩ | ⟨_, hp⟩
    · cases hw
      exact Or.inl ⟨hji, hdrawn⟩
    · exact Or.inr ⟨hp, h.pending_le j id n hp⟩
  refine ⟨?_, ?_, ?_, ?_, ?_⟩
  · intro id s hs
    exact h.count_le id s (hget id ▸ hs)
  · intro id s hs
    have := h.last_le id s (hget id ▸ hs)
    omega
  · intro j id n hj s hs
    rw [hget] at hs
    rcases hpend j id n hj with ⟨_, rfl⟩ | ⟨hp, _⟩
    · have := h.last_le id s hs
      omega
    · exact h.pending_gt j id n hp s hs
  · intro j id n hj
    rcases hpend j id n hj with ⟨_, rfl⟩ | ⟨_, hle⟩
    · omega
    · omega
  · intro j k id id' n hj hk
    rcases hpend j id n hj with ⟨hji, hn⟩ | ⟨hpj, hle⟩
    · rcases hpend k id' n hk with ⟨hki, _⟩ | ⟨_, hle⟩
      · rw [hji, hki]
      · omega
    · rcases hpend k id' n hk with ⟨_, hn⟩ | ⟨hpk, _⟩
      · omega
      · exact h.pending_inj j k id id' n hpj hpk

theorem selectionSequence_writeSelection {id : AccountId} {n : Nat} :
    (t.writeSelection id n nowMs).1.selectionSequence = t.selectionSequence := by
  unfold AccountHealthTable.writeSelection
  cases t.get? id with
  | none | some => rfl

/-- A write in turn replaces a number by a larger one that is smaller than all still to come. -/
theorem Pool.Ordered.write {n : Nat} {r : Selection} (h : p.Ordered)
    (hi : p.Pending i choice.accountId n) (hturn : ∀ j m, p.Pending j choice.accountId m → n ≤ m)
    (htable : q.table = (p.table.writeSelection choice.accountId n args.nowMs).1)
    (hcalls : q.calls = p.calls.set i (.finished r)) : q.Ordered := by
  have hseq : q.table.selectionSequence = p.table.selectionSequence := by
    rw [htable, selectionSequence_writeSelection]
  have hpend : ∀ j id m, q.Pending j id m → j ≠ i ∧ p.Pending j id m := by
    intro j id m hj
    rcases hj.of_set hcalls with ⟨_, _, _, hw, _⟩ | hp
    · cases hw
    · exact hp
  have hle := h.pending_le i choice.accountId n hi
  -- An account of the new table is the marked one or one of the old table.
  have hget : ∀ id s, q.table.get? id = some s →
      (id = choice.accountId ∧ ∃ s₀, p.table.get? id = some s₀ ∧ s = s₀.mark n args.nowMs) ∨
        p.table.get? id = some s := by
    intro id s hs
    rw [htable, get?_writeSelection] at hs
    split at hs
    · next heq =>
      obtain ⟨s₀, hs₀, hmark⟩ := Option.map_eq_some_iff.mp hs
      exact Or.inl ⟨heq.symm, s₀, hs₀, hmark.symm⟩
    · exact Or.inr hs
  refine ⟨?_, ?_, ?_, ?_, ?_⟩
  · intro id s hs
    rcases hget id s hs with ⟨rfl, s₀, hs₀, rfl⟩ | hp
    · have hgt := h.pending_gt i _ n hi s₀ hs₀
      have hcount := h.count_le _ s₀ hs₀
      show satAdd u64Max s₀.selectionCount 1 ≤ n
      unfold satAdd
      omega
    · exact h.count_le id s hp
  · intro id s hs
    rw [hseq]
    rcases hget id s hs with ⟨_, s₀, _, rfl⟩ | hp
    · exact hle
    · exact h.last_le id s hp
  · intro j id m hj s hs
    obtain ⟨hji, hpj⟩ := hpend j id m hj
    rcases hget id s hs with ⟨rfl, s₀, _, rfl⟩ | hp
    · have hnm := hturn j m hpj
      have hne : n ≠ m := fun heq => hji (h.pending_inj j i _ _ m hpj (heq ▸ hi))
      show n < m
      omega
    · exact h.pending_gt j id m hpj s hp
  · intro j id m hj
    rw [hseq]
    exact h.pending_le j id m (hpend j id m hj).2
  · intro j k id id' m hj hk
    exact h.pending_inj j k id id' m (hpend j id m hj).2 (hpend k id' m hk).2

theorem Pool.Ordered.write_noDecrease {n : Nat} (h : p.Ordered)
    (hi : p.Pending i choice.accountId n)
    (htable : q.table = (p.table.writeSelection choice.accountId n args.nowMs).1) :
    p.NoDecrease q := by
  intro id s hs
  rw [htable, get?_writeSelection, hs]
  split
  · next heq =>
    subst heq
    exact ⟨_, rfl, le_of_lt (h.pending_gt i _ n hi s hs)⟩
  · exact ⟨s, rfl, le_refl _⟩

/-! ## Whole runs -/

/-- A step in turn keeps the invariant and moves no number back. -/
theorem poolStep_inTurn (p : Pool) (e : PoolEvent) (q : Pool) (h : p.Ordered) (he : InTurn p e)
    (hstep : poolStep p e = some q) : q.Ordered ∧ p.NoDecrease q := by
  cases e with
  | call candidates args =>
    cases hstep
    -- The new call holds no number, so the pending numbers are the old ones.
    have hpend : ∀ j id n, Pool.Pending ⟨p.table, p.calls ++ [.scanning args candidates none]⟩
        j id n → p.Pending j id n := by
      rintro j id n ⟨args', choice, hj, hid⟩
      refine ⟨args', choice, ?_, hid⟩
      rw [List.getElem?_append] at hj
      split at hj
      · exact hj
      · next hlen =>
        cases hk : j - p.calls.length with
        | zero | succ => rw [hk] at hj; cases hj
    refine ⟨⟨h.count_le, h.last_le, ?_, ?_, ?_⟩, fun id s hs => ⟨s, hs, le_refl _⟩⟩
    · intro j id n hj
      exact h.pending_gt j id n (hpend j id n hj)
    · intro j id n hj
      exact h.pending_le j id n (hpend j id n hj)
    · intro j k id id' n hj hk
      exact h.pending_inj j k id id' n (hpend j id n hj) (hpend k id' n hk)
  | advance i =>
    obtain ⟨c, d, hc, hadv, hcalls⟩ := poolStep_advance_inv hstep
    rcases CallState.advance_cases hadv with
      ⟨nowMs, hframe, hd⟩ | ⟨args, choice, rfl, hu, rfl⟩ | ⟨args, choice, n, r, rfl, hu, rfl⟩
    · exact ⟨h.scan hframe hcalls hd, hframe.noDecrease⟩
    · refine ⟨h.draw (he.1 args choice hc) hu hcalls, ?_⟩
      intro id s hs
      exact ⟨s, by rw [hu, ← hs]; rfl, le_refl _⟩
    · have hi : p.Pending i choice.accountId n := ⟨args, choice, hc, rfl⟩
      exact ⟨h.write hi (he.2 _ n hi) hu hcalls, h.write_noDecrease hi hu⟩

/-- A table as a constructor returned it. -/
def Built (t : AccountHealthTable) : Prop :=
  (∃ policy accounts, new policy accounts = .ok t) ∨
    (∃ policy accounts snapshots nowMs, restore policy accounts snapshots nowMs = .ok t)

/-- `restore` checked the order of each account and set the counter to the largest number. -/
theorem Built.ordered (h : Built t) : Pool.Ordered ⟨t, []⟩ := by
  have hpend : ∀ j id n, ¬ Pool.Pending ⟨t, []⟩ j id n := by
    rintro j id n ⟨_, _, hj, _⟩
    cases hj
  refine ⟨?_, ?_, fun j id n hj => absurd hj (hpend j id n), fun j id n hj =>
    absurd hj (hpend j id n), fun j k id id' n hj _ => absurd hj (hpend j id n)⟩
  · rcases h with ⟨policy, accounts, hnew⟩ | ⟨policy, accounts, snapshots, nowMs, hres⟩
    · exact all_new hnew (le_refl _)
    · obtain ⟨t₀, hnew, hr⟩ := restore_inv hres
      refine hr.all _ (all_new hnew (le_refl _)) fun snapshot hmem => ?_
      simpa using (hr.accepted snapshot hmem).count_le
  · rcases h with ⟨policy, accounts, hnew⟩ | ⟨policy, accounts, snapshots, nowMs, hres⟩
    · exact all_new hnew (Nat.zero_le _)
    · obtain ⟨t₀, hnew, hr⟩ := restore_inv hres
      refine hr.all _ (all_new hnew (Nat.zero_le _)) fun snapshot hmem => ?_
      simpa using hr.last_le snapshot hmem

/-- **Selections in turn keep the order.** In every run of concurrent selections whose steps are in
    turn, every state reached has each account's selection count covered by its number, and no
    number ever decreases from a state of the run to a later one. -/
theorem selections_in_turn_ordered {t : AccountHealthTable} (hbuilt : Built t)
    {before after : List PoolEvent} {p q : Pool}
    (hturn : StepsMeet poolStep InTurn ⟨t, []⟩ (before ++ after))
    (hp : run poolStep ⟨t, []⟩ before = some p) (hq : run poolStep p after = some q) :
    (∀ id s, p.table.get? id = some s → s.selectionCount ≤ s.lastSelectedSequence) ∧
      (∀ id s, p.table.get? id = some s →
        ∃ s', q.table.get? id = some s' ∧ s.lastSelectedSequence ≤ s'.lastSelectedSequence) := by
  obtain ⟨hbefore, hafter⟩ := hturn.append hp
  have hinv : ∀ p e q, p.Ordered → InTurn p e → poolStep p e = some q → q.Ordered :=
    fun p e q h he hs => (poolStep_inTurn p e q h he hs).1
  have hord : p.Ordered := (Along.of_stepsMeet hinv hbuilt.ordered hbefore).last hp
  refine ⟨hord.count_le, ?_⟩
  have hno : p.NoDecrease q := by
    refine run_rel (R := Pool.NoDecrease) (fun p id s hs => ⟨s, hs, le_refl _⟩) ?_ hinv
      (fun p e q h he hs => (poolStep_inTurn p e q h he hs).2) hord hafter hq
    intro p₁ p₂ p₃ h₁₂ h₂₃ id s hs
    obtain ⟨s₂, hs₂, hle₂⟩ := h₁₂ id s hs
    obtain ⟨s₃, hs₃, hle₃⟩ := h₂₃ id s₂ hs₂
    exact ⟨s₃, hs₃, le_trans hle₂ hle₃⟩
  exact hno

def primaryCandidate : AccountCandidate := ⟨primaryAccount, .apiKey, 1, by decide, by decide⟩

def primaryArgs : SelectionArgs := ⟨.apiKey, none, 0⟩

/-- The number a call has drawn and not written. -/
def CallState.drawn : CallState → Option Nat
  | .writing _ _ n => some n
  | _ => none

/-- The counter is below its end, and the call to move has the least of the drawn numbers. -/
def Pool.inTurn (p : Pool) : PoolEvent → Bool
  | .call _ _ => true
  | .advance i => p.table.selectionSequence < u64Max &&
      (p.calls[i]?.bind CallState.drawn).all fun n => p.calls.all fun c => c.drawn.all (n ≤ ·)

theorem inTurn_of_least {p : Pool} {e : PoolEvent} (h : p.inTurn e = true) : InTurn p e := by
  cases e with
  | call candidates args => trivial
  | advance i =>
    obtain ⟨hcounter, hleast⟩ := (Bool.and_eq_true _ _).mp h
    refine ⟨fun _ _ _ => of_decide_eq_true hcounter, ?_⟩
    rintro id n ⟨args, choice, hi, -⟩ j m ⟨args', choice', hj, -⟩
    rw [hi] at hleast
    exact of_decide_eq_true (List.all_eq_true.mp hleast _ (List.mem_of_getElem? hj))

/-- Two calls choose the same account, draw 1 and 2 and write them in turn. -/
theorem selections_in_turn_ordered_two_calls :
    ∃ t p q, new defaultPolicy [primaryAccount] = .ok t ∧
      run poolStep ⟨t, []⟩
        [.call [primaryCandidate] primaryArgs, .call [primaryCandidate] primaryArgs,
          .advance 0, .advance 0, .advance 1, .advance 1, .advance 0, .advance 1, .advance 0] =
      some p ∧ run poolStep p [.advance 1] = some q ∧
      (∀ id s, p.table.get? id = some s → s.selectionCount ≤ s.lastSelectedSequence) ∧
      (∀ id s, p.table.get? id = some s →
        ∃ s', q.table.get? id = some s' ∧ s.lastSelectedSequence ≤ s'.lastSelectedSequence) := by
  have hnew : new defaultPolicy [primaryAccount] =
      .ok ((empty defaultPolicy).insert primaryAccount {}) := rfl
  refine ⟨_, _, _, hnew, rfl, rfl, @selections_in_turn_ordered _ (.inl ⟨_, _, hnew⟩)
    [.call [primaryCandidate] primaryArgs, .call [primaryCandidate] primaryArgs,
      .advance 0, .advance 0, .advance 1, .advance 1, .advance 0, .advance 1, .advance 0]
    [.advance 1] _ _ ?_ rfl rfl⟩
  exact .of_passes (fun _ _ => inTurn_of_least) rfl

/-- Two calls choose the same account and draw 1 and 2; the call with 2 writes first. The second
    write moves the account's number back from 2 to 1, below its selection count of 2. -/
theorem overtaken_write_moves_sequence_back :
    ∃ t p q s s', new defaultPolicy [primaryAccount] = .ok t ∧
      run poolStep ⟨t, []⟩
        [.call [primaryCandidate] primaryArgs, .call [primaryCandidate] primaryArgs,
          .advance 0, .advance 0, .advance 1, .advance 1, .advance 0, .advance 1, .advance 1] =
      some p ∧ run poolStep p [.advance 0] = some q ∧
      p.table.get? primaryAccount = some s ∧ q.table.get? primaryAccount = some s' ∧
      s'.lastSelectedSequence < s.lastSelectedSequence ∧
      s'.lastSelectedSequence < s'.selectionCount :=
  ⟨_, _, _, _, _, rfl, rfl, rfl, rfl, rfl, by decide, by decide⟩

end AccountHealthTable

end Wokcore.Engine
