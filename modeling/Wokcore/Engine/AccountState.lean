import Wokcore.Engine.Accounts

/-!
# The states of one account

`restore` checks every state it is handed. `AccountState.Restorable` is that check as a predicate,
and the module says which operations on one account keep it.

Not all do. `restore` was written for the states a well-behaved account goes through, and `observe`
reaches others: a failure reported on a quarantined account sets a cooldown next to the quarantine,
the 65th consecutive failure passes the bound on the counter, and a selection whose number is
smaller than the account's selection count leaves the two the wrong way round. `Tolerates` and the
side of `Restorable.mark_iff` are the exact conditions. `Wellformed` is the part that no operation
can break.
-/

set_option autoImplicit false

namespace Wokcore.Engine

open Lib Wokcore.Core

namespace AccountState

variable {observation : AccountObservation}

/-- The states `restore` accepts, as a predicate. -/
structure Restorable (s : AccountState) : Prop where
  failures_le : s.consecutiveFailures ≤ 64
  count_le : s.selectionCount ≤ s.lastSelectedSequence
  unselected : s.selectionCount = 0 → s.lastSelectedSequence = 0
  not_both : s.quarantined = true → s.cooldownUntilMs = none
  quota_pair : s.quotaRemaining.isSome = s.quotaResetsAtMs.isSome

/-- What every operation preserves, whatever it is given: the quota pair is written together, no
    deadline is the instant zero, and only a selection writes a sequence number. -/
structure Wellformed (s : AccountState) : Prop where
  quota_pair : s.quotaRemaining.isSome = s.quotaResetsAtMs.isSome
  cooldown_pos : s.cooldownUntilMs ≠ some 0
  unselected : s.selectionCount = 0 → s.lastSelectedSequence = 0

theorem rejected_iff {id : AccountId} {s : AccountState} :
    AccountHealthSnapshot.rejected ⟨id, s⟩ = false ↔ s.Restorable := by
  simp only [AccountHealthSnapshot.rejected, Bool.or_eq_false_iff, Bool.and_eq_false_iff,
    decide_eq_false_iff_not, beq_eq_false_iff_ne, bne_eq_false_iff_eq, Option.isSome_eq_false_iff,
    Option.isNone_iff_eq_none, gt_iff_lt, not_lt]
  constructor
  · rintro ⟨⟨⟨⟨hf, hc⟩, hu⟩, hn⟩, hq⟩
    refine ⟨hf, hc, fun h0 => ?_, fun ht => ?_, hq⟩
    · exact hu.resolve_left (fun h => h h0)
    · exact hn.resolve_right (by rw [ht]; simp)
  · rintro ⟨hf, hc, hu, hn, hq⟩
    refine ⟨⟨⟨⟨hf, hc⟩, ?_⟩, ?_⟩, hq⟩
    · by_cases h0 : s.selectionCount = 0
      · exact Or.inr (hu h0)
      · exact Or.inl h0
    · cases hqt : s.quarantined with
      | true => exact Or.inl (hn hqt)
      | false => exact Or.inr rfl

theorem restorable_default : ({} : AccountState).Restorable :=
  ⟨by decide, le_refl _, fun _ => rfl, fun _ => rfl, rfl⟩

theorem wellformed_default : ({} : AccountState).Wellformed :=
  ⟨rfl, by decide, fun _ => rfl⟩

variable {s : AccountState} {nowMs : Nat}

@[simp] theorem normalize_consecutiveFailures :
    (s.normalize nowMs).consecutiveFailures = s.consecutiveFailures := by
  unfold normalize; dsimp only; split <;> split <;> rfl

@[simp] theorem normalize_quarantined : (s.normalize nowMs).quarantined = s.quarantined := by
  unfold normalize; dsimp only; split <;> split <;> rfl

@[simp] theorem normalize_selectionCount :
    (s.normalize nowMs).selectionCount = s.selectionCount := by
  unfold normalize; dsimp only; split <;> split <;> rfl

@[simp] theorem normalize_lastSelectedSequence :
    (s.normalize nowMs).lastSelectedSequence = s.lastSelectedSequence := by
  unfold normalize; dsimp only; split <;> split <;> rfl

theorem normalize_cooldown :
    (s.normalize nowMs).cooldownUntilMs =
      if s.cooldownUntilMs.any (· ≤ nowMs) then none else s.cooldownUntilMs := by
  unfold normalize; dsimp only; split <;> split <;> rfl

theorem normalize_quota :
    ((s.normalize nowMs).quotaRemaining = none ∧ (s.normalize nowMs).quotaResetsAtMs = none) ∨
      ((s.normalize nowMs).quotaRemaining = s.quotaRemaining ∧
        (s.normalize nowMs).quotaResetsAtMs = s.quotaResetsAtMs) := by
  unfold normalize
  dsimp only
  split <;> split
  · exact Or.inl ⟨rfl, rfl⟩
  · exact Or.inr ⟨rfl, rfl⟩
  · exact Or.inl ⟨rfl, rfl⟩
  · exact Or.inr ⟨rfl, rfl⟩

theorem normalize_quota_pair (h : s.quotaRemaining.isSome = s.quotaResetsAtMs.isSome) :
    (s.normalize nowMs).quotaRemaining.isSome = (s.normalize nowMs).quotaResetsAtMs.isSome := by
  rcases @normalize_quota s nowMs with ⟨h₁, h₂⟩ | ⟨h₁, h₂⟩
  · rw [h₁, h₂]
  · rw [h₁, h₂, h]

theorem Restorable.normalize (h : s.Restorable) (nowMs : Nat) : (s.normalize nowMs).Restorable := by
  refine ⟨by simpa using h.failures_le, by simpa using h.count_le, by simpa using h.unselected,
    ?_, normalize_quota_pair h.quota_pair⟩
  intro hq
  rw [normalize_quarantined] at hq
  rw [normalize_cooldown, h.not_both hq]
  simp

theorem Wellformed.normalize (h : s.Wellformed) (nowMs : Nat) : (s.normalize nowMs).Wellformed := by
  refine ⟨normalize_quota_pair h.quota_pair, ?_, by simpa using h.unselected⟩
  rw [normalize_cooldown]
  split
  · simp
  · exact h.cooldown_pos

/-- At the instant zero nothing has run out, so what `restore` sees there is the state itself. -/
theorem Restorable.of_normalize_zero (hw : s.Wellformed) (h : (s.normalize 0).Restorable) :
    s.Restorable := by
  refine ⟨by simpa using h.failures_le, by simpa using h.count_le, hw.unselected, ?_,
    hw.quota_pair⟩
  intro hq
  have hn := h.not_both (by rw [normalize_quarantined]; exact hq)
  rw [normalize_cooldown] at hn
  cases hc : s.cooldownUntilMs with
  | none => rfl
  | some c =>
    rw [hc] at hn
    have hpos : c ≠ 0 := fun h0 => hw.cooldown_pos (by rw [hc, h0])
    simp [hpos] at hn

theorem normalize_normalize : (s.normalize nowMs).normalize nowMs = s.normalize nowMs := by
  obtain ⟨f, c, q, r, z, n, l, u⟩ := s
  cases c with
  | none => cases z with
    | none => simp [normalize]
    | some z => by_cases hz : z ≤ nowMs <;> simp [normalize, hz]
  | some c =>
    by_cases hc : c ≤ nowMs
    all_goals cases z with
      | none => simp [normalize, hc]
      | some z => by_cases hz : z ≤ nowMs <;> simp [normalize, hc, hz]

/-! ## Observations and selections of one account -/

theorem cooldownDuration_pos (policy : AccountHealthPolicy) (failures : Nat)
    (retryAfterMs : Option Nat) : 0 < cooldownDuration policy failures retryAfterMs := by
  have hbase : 0 < policy.baseCooldownMs := Nat.pos_of_ne_zero policy.base_pos
  have hpow : 0 < 2 ^ min (failures - 1) 63 := Nat.two_pow_pos _
  have hprod : 0 < policy.baseCooldownMs * 2 ^ min (failures - 1) 63 := Nat.mul_pos hbase hpow
  have hmax := policy.base_le
  have htop : 0 < u64Max := by decide
  unfold cooldownDuration satMul
  dsimp only
  omega

/-- The observations after which a restorable account is restorable again: a failure must find the
    counter below its bound, and a failure that sets a cooldown must not find a quarantine. -/
def Tolerates (s : AccountState) : AccountObservation → Prop
  | .rateLimited _ => s.quarantined = false ∧ s.consecutiveFailures < 64
  | .temporaryFailure _ => s.quarantined = false ∧ s.consecutiveFailures < 64
  | .invalidCredentials => s.consecutiveFailures < 64
  | .success => True
  | .invalidRequest => True
  | .policyRejected => True
  | .quota _ _ => True

variable (policy : AccountHealthPolicy) (nowMs)

theorem Wellformed.coolDown (h : s.Wellformed) (retryAfterMs : Option Nat) :
    (s.coolDown policy retryAfterMs nowMs).Wellformed := by
  refine ⟨h.quota_pair, ?_, h.unselected⟩
  have hpos := satAdd_pos (a := nowMs) (by decide : 0 < u64Max)
    (cooldownDuration_pos policy (satAdd u8Max s.consecutiveFailures 1) retryAfterMs)
  simp only [AccountState.coolDown, ne_eq, Option.some.injEq]
  omega

theorem Wellformed.record (h : s.Wellformed) (observation : AccountObservation) :
    (s.record policy observation nowMs).Wellformed := by
  cases observation with
  | success => exact ⟨rfl, by simp [AccountState.record], h.unselected⟩
  | rateLimited r | temporaryFailure r => exact h.coolDown nowMs policy r
  | invalidCredentials => exact ⟨h.quota_pair, by simp [AccountState.record], h.unselected⟩
  | invalidRequest | policyRejected => exact h
  | quota remaining resetsAtMs =>
    simp only [AccountState.record]
    split <;> exact ⟨rfl, h.cooldown_pos, h.unselected⟩

theorem Wellformed.observe (h : s.Wellformed) (observation : AccountObservation) :
    (s.observe policy observation nowMs).Wellformed := by
  obtain ⟨hq, hc, hu⟩ := (h.normalize nowMs).record nowMs policy observation
  exact ⟨hq, hc, hu⟩

theorem Restorable.coolDown (h : s.Restorable) (hq : s.quarantined = false)
    (hf : s.consecutiveFailures < 64) (retryAfterMs : Option Nat) :
    (s.coolDown policy retryAfterMs nowMs).Restorable := by
  refine ⟨?_, h.count_le, h.unselected, ?_, h.quota_pair⟩
  · show satAdd u8Max s.consecutiveFailures 1 ≤ 64
    unfold satAdd
    omega
  · intro hq'
    exact absurd (show s.quarantined = true from hq') (by rw [hq]; simp)

theorem Restorable.record (h : s.Restorable) (ht : s.Tolerates observation) :
    (s.record policy observation nowMs).Restorable := by
  cases observation with
  | success => exact ⟨Nat.zero_le _, h.count_le, h.unselected, fun _ => rfl, rfl⟩
  | rateLimited r | temporaryFailure r => exact h.coolDown nowMs policy ht.1 ht.2 r
  | invalidCredentials =>
    refine ⟨?_, h.count_le, h.unselected, fun _ => rfl, h.quota_pair⟩
    have hf : s.consecutiveFailures < 64 := ht
    show satAdd u8Max s.consecutiveFailures 1 ≤ 64
    unfold satAdd
    omega
  | invalidRequest | policyRejected => exact h
  | quota remaining resetsAtMs =>
    simp only [AccountState.record]
    split <;> exact ⟨h.failures_le, h.count_le, h.unselected, h.not_both, rfl⟩

theorem tolerates_normalize : (s.normalize nowMs).Tolerates observation ↔
    s.Tolerates observation := by
  cases observation <;> simp [Tolerates]

theorem Restorable.observe (h : s.Restorable) (ht : s.Tolerates observation) :
    (s.observe policy observation nowMs).Restorable := by
  obtain ⟨hf, hc, hu, hn, hq⟩ :=
    (h.normalize nowMs).record nowMs policy ((tolerates_normalize nowMs).mpr ht)
  exact ⟨hf, hc, hu, hn, hq⟩

/-- A failure that sets a cooldown leaves the quarantine flag as it was, so on a quarantined account
    both are set afterwards. -/
theorem Tolerates.of_coolDown {retryAfterMs : Option Nat}
    (h : (s.coolDown policy retryAfterMs nowMs).Restorable) :
    s.quarantined = false ∧ s.consecutiveFailures < 64 := by
  constructor
  · cases hq : s.quarantined with
    | false => rfl
    | true => exact absurd (h.not_both hq) (by simp [AccountState.coolDown])
  · have hf : satAdd u8Max s.consecutiveFailures 1 ≤ 64 := h.failures_le
    have htop : u8Max = 255 := rfl
    unfold satAdd at hf
    omega

theorem Tolerates.of_observe (h : (s.observe policy observation nowMs).Restorable) :
    s.Tolerates observation := by
  rw [← tolerates_normalize nowMs]
  have hr : ((s.normalize nowMs).record policy observation nowMs).Restorable :=
    ⟨h.failures_le, h.count_le, h.unselected, h.not_both, h.quota_pair⟩
  cases observation with
  | rateLimited | temporaryFailure => exact Tolerates.of_coolDown nowMs policy hr
  | invalidCredentials =>
    have hf : satAdd u8Max (s.normalize nowMs).consecutiveFailures 1 ≤ 64 := hr.failures_le
    have htop : u8Max = 255 := rfl
    unfold satAdd at hf
    show (s.normalize nowMs).consecutiveFailures < 64
    omega
  | success | invalidRequest | policyRejected | quota => trivial

theorem mark_selectionCount_pos (sequence : Nat) : (s.mark sequence nowMs).selectionCount ≠ 0 := by
  have hpos := satAdd_pos (a := s.selectionCount) (by decide : 0 < u64Max) (by decide : 0 < 1)
  show satAdd u64Max s.selectionCount 1 ≠ 0
  omega

theorem Wellformed.mark (h : s.Wellformed) (sequence : Nat) : (s.mark sequence nowMs).Wellformed :=
  ⟨h.quota_pair, h.cooldown_pos, fun h0 => absurd h0 (mark_selectionCount_pos nowMs sequence)⟩

theorem Restorable.mark_iff (h : s.Restorable) {sequence : Nat} :
    (s.mark sequence nowMs).Restorable ↔ satAdd u64Max s.selectionCount 1 ≤ sequence := by
  constructor
  · intro hm
    exact hm.count_le
  · intro hle
    exact ⟨h.failures_le, hle, fun h0 => absurd h0 (mark_selectionCount_pos nowMs sequence),
      h.not_both, h.quota_pair⟩

end AccountState

end Wokcore.Engine
