import Covm.Number.Order
import Covm.Vm.Types

/-!
# Retries of network operations (`RetryManager`)

An operation that fails is tried again after a delay that doubles with every failure and is
jittered at random. The manager has one entry for each key `operation:target`: the first failure
makes it, a success or the fifth failure removes it. Along every run the entry of a key counts the
failures since the key was last settled, whatever happens to the other keys.
-/

namespace Covm

/-- `MAX_RETRY_ATTEMPTS` -/
def maxRetryAttempts : Nat := 5

/-- `BASE_RETRY_DELAY_MS` -/
def baseRetryDelayMs : Nat := 500

/-- `MAX_RETRY_DELAY_MS` -/
def maxRetryDelayMs : Nat := 30000

structure RetryStatus where
  lastAttempt : Nat
  attempts : Nat
  inBackoff : Bool
  currentDelayMs : Nat
  operation : String
  target : String

structure RetryManager where
  retries : HashMap RetryStatus
  maxAttempts : Nat
  baseDelayMs : Nat
  maxDelayMs : Nat

/-- The panic of an arithmetic operation that leaves the range of its type. -/
inductive ArithmeticOverflow where
  | overflow

/-- The result of an operation on unsigned integers of so many bits. -/
def checked (bits n : Nat) : Except ArithmeticOverflow Nat :=
  if n < 2 ^ bits then .ok n else .error .overflow

namespace RetryManager

def new : RetryManager := ⟨∅, maxRetryAttempts, baseRetryDelayMs, maxRetryDelayMs⟩

def keyOf (operation target : String) : String := operation ++ ":" ++ target

/-- `(delay_ms as f64 * 0.1 * (rand::random::<f64>() - 0.5)) as u64` -/
def jitter {F : Type} [Number F] (delayMs : Nat) (random : F) : Nat :=
  let tenth : F := Number.div (Number.ofNat 1) (Number.ofNat 10)
  let half : F := Number.div (Number.ofNat 1) (Number.ofNat 2)
  Number.toU64 (Number.mul (Number.mul (Number.ofNat delayMs) tenth) (Number.sub random half))

/-- The delay after so many attempts. -/
def nextDelay {F : Type} [Number F] (m : RetryManager) (attempts : Nat) (random : F) :
    Except ArithmeticOverflow Nat := do
  let factor ← checked 64 (2 ^ (attempts - 1))
  let delayMs ← checked 64 (m.baseDelayMs * factor)
  let sum ← checked 64 (delayMs + jitter delayMs random)
  return min sum m.maxDelayMs

/-- The delay to wait, unless it gives up; `now` is the time in seconds and `random` the sample of
this call. -/
def recordFailure {F : Type} [Number F] (m : RetryManager) (operation target : String) (now : Nat)
    (random : F) : Except ArithmeticOverflow (Option Nat × RetryManager) := do
  let key := keyOf operation target
  let status := (m.retries.lookup key).getD ⟨now, 0, false, m.baseDelayMs, operation, target⟩
  let attempts ← checked 32 (status.attempts + 1)
  if m.maxAttempts ≤ attempts then
    return (none, { m with retries := m.retries.erase key })
  let delayMs ← m.nextDelay attempts random
  let status : RetryStatus :=
    { status with lastAttempt := now, attempts, currentDelayMs := delayMs, inBackoff := true }
  return (some delayMs, { m with retries := m.retries.insert key status })

def recordSuccess (m : RetryManager) (operation target : String) : RetryManager :=
  { m with retries := m.retries.erase (keyOf operation target) }

def isInBackoff (m : RetryManager) (operation target : String) : Bool :=
  match m.retries.lookup (keyOf operation target) with
  | some status => status.inBackoff
  | none => false

end RetryManager

/-- A call of one of the two methods that change the entries. -/
inductive RetryCall (F : Type) where
  | recordFailure (operation target : String) (now : Nat) (random : F)
  | recordSuccess (operation target : String)

namespace RetryCall
variable {F : Type}

def key : RetryCall F → String
  | recordFailure operation target _ _ => RetryManager.keyOf operation target
  | recordSuccess operation target => RetryManager.keyOf operation target

/-- What the call returns, a success nothing, and the manager after it. -/
def perform [Number F] (m : RetryManager) :
    RetryCall F → Except ArithmeticOverflow (Option Nat × RetryManager)
  | recordFailure operation target now random => m.recordFailure operation target now random
  | recordSuccess operation target => .ok (none, m.recordSuccess operation target)

/-- The sample is one that `rand::random` gives. -/
def Sampled {fmt : Format} : RetryCall (Ieee fmt) → Prop
  | recordFailure _ _ _ random => Ieee.InUnit random
  | recordSuccess _ _ => True

end RetryCall

/-- The calls of a run with what they returned, the last one first. -/
abbrev RetryLog (F : Type) := List (RetryCall F × Option Nat)

/-- The failures of a key since its last success, or since the manager last gave it up. -/
def RetryLog.streak {F : Type} (key : String) : RetryLog F → Nat
  | [] => 0
  | (call, result) :: log =>
    if call.key = key then
      match call, result with
      | .recordFailure .., some _ => streak key log + 1
      | _, _ => 0
    else streak key log

namespace RetryLog
variable {F : Type}

theorem streak_success (operation target : String) (result : Option Nat) (log : RetryLog F) :
    streak (RetryManager.keyOf operation target)
      ((.recordSuccess operation target, result) :: log) = 0 := if_pos rfl

theorem streak_giveUp (operation target : String) (now : Nat) (random : F) (log : RetryLog F) :
    streak (RetryManager.keyOf operation target)
      ((.recordFailure operation target now random, none) :: log) = 0 := if_pos rfl

theorem streak_failure (operation target : String) (now : Nat) (random : F) (d : Nat)
    (log : RetryLog F) : streak (RetryManager.keyOf operation target)
      ((.recordFailure operation target now random, some d) :: log) =
        log.streak (RetryManager.keyOf operation target) + 1 := if_pos rfl

end RetryLog

/-- A run of calls on a new manager. -/
inductive RetryRun : RetryLog Binary64 → RetryManager → Prop
  | new : RetryRun [] .new
  | step {log : RetryLog Binary64} {m m' : RetryManager} {call : RetryCall Binary64}
      {result : Option Nat} (run : RetryRun log m) (sampled : call.Sampled)
      (performed : call.perform m = .ok (result, m')) : RetryRun ((call, result) :: log) m'

/-- The entry of a key that has failed `n` times. -/
structure RetryStatus.Counts (status : RetryStatus) (n : Nat) : Prop where
  attempts : status.attempts = n
  some_attempt : 1 ≤ status.attempts
  few : status.attempts ≤ 4
  inBackoff : status.inBackoff = true
  low : 500 ≤ status.currentDelayMs
  high : status.currentDelayMs ≤ 30000

/-- The manager knows exactly the keys with failures, and counts these. -/
structure RetryManager.Tracks (m : RetryManager) {F : Type} (log : RetryLog F) : Prop where
  maxAttempts : m.maxAttempts = 5
  baseDelayMs : m.baseDelayMs = 500
  maxDelayMs : m.maxDelayMs = 30000
  absent : ∀ key, m.retries.lookup key = none → log.streak key = 0
  present : ∀ key status, m.retries.lookup key = some status → status.Counts (log.streak key)

/-! ### The jitter -/

namespace RetryManager

/-- The jitter is never negative, and at most a twentieth of the delay. -/
theorem jitter_le_of_tenth {fmt : Format} (hlog : 1 ≤ fmt.scaleLog) (hprec : 2 ≤ fmt.precision)
    {delayMs e : Nat} (he : 2 * e < 2 ^ fmt.precision)
    (htenth : Number.mul (Number.ofNat delayMs : Ieee fmt)
      (Number.div (Number.ofNat 1) (Number.ofNat 10)) = Number.ofNat (2 * e))
    {random : Ieee fmt} (h : Ieee.InUnit random) : jitter delayMs random ≤ e := by
  obtain ⟨half, hdiv, hhalf⟩ := Ieee.exists_half hlog hprec
  obtain ⟨t, l, hsub, hl⟩ := h.sub_half hhalf
  have hhalved : Number.sub random (Number.div (Number.ofNat 1) (Number.ofNat 2)) = .fin t l := by
    show Ieee.sub random (Ieee.div (Ieee.ofNat 1) (Ieee.ofNat 2)) = _
    rw [hdiv, hsub]
  unfold jitter
  dsimp only
  rw [htenth, hhalved]
  exact Ieee.toU64_mul_le he t hhalf hl

theorem tenth_of_delay : ∀ k < 4, Number.mul (Number.ofNat (500 * 2 ^ k) : Binary64)
    (Number.div (Number.ofNat 1) (Number.ofNat 10)) = Number.ofNat (2 * (25 * 2 ^ k)) := by
  decide +kernel

theorem jitter_le {k : Nat} (hk : k < 4) {random : Binary64} (h : Ieee.InUnit random) :
    jitter (500 * 2 ^ k) random ≤ 25 * 2 ^ k := by
  have hsmall : 2 * (25 * 2 ^ k) < 2 ^ 53 := by
    have hpow : 2 ^ k ≤ 2 ^ 4 := Nat.pow_le_pow_right (by decide) hk.le
    omega
  exact @jitter_le_of_tenth .binary64 (show 1 ≤ 1074 by decide) (show 2 ≤ 53 by decide) _ _ hsmall
    (tenth_of_delay k hk) _ h

/-! ### One call -/

theorem checked_of_lt {bits n : Nat} (h : n < 2 ^ bits) : checked bits n = .ok n := if_pos h

variable {m : RetryManager} {log : RetryLog Binary64} {key : String}

/-- The attempts counted for a key. -/
theorem Tracks.attempts_eq (h : m.Tracks log) (key : String) {initial : RetryStatus}
    (hinitial : initial.attempts = 0) :
    ((m.retries.lookup key).getD initial).attempts = log.streak key := by
  cases hlookup : m.retries.lookup key with
  | none => exact hinitial.trans (h.absent key hlookup).symm
  | some status => exact (h.present key status hlookup).attempts

theorem Tracks.streak_le (h : m.Tracks log) (key : String) : log.streak key ≤ 4 := by
  cases hlookup : m.retries.lookup key with
  | none =>
    rw [h.absent key hlookup]
    exact Nat.zero_le 4
  | some status =>
    rw [← (h.present key status hlookup).attempts]
    exact (h.present key status hlookup).few

/-- The fifth failure in a row. -/
theorem Tracks.gives_up (h : m.Tracks log) {operation target : String}
    (hstreak : log.streak (keyOf operation target) = 4) (now : Nat) (random : Binary64) :
    m.recordFailure operation target now random =
      .ok (none, { m with retries := m.retries.erase (keyOf operation target) }) := by
  have hattempts := h.attempts_eq (keyOf operation target)
    (show (⟨now, 0, false, m.baseDelayMs, operation, target⟩ : RetryStatus).attempts = 0 from rfl)
  unfold recordFailure
  dsimp only
  rw [hattempts, hstreak, checked_of_lt (by decide)]
  show (if m.maxAttempts ≤ 5 then _ else _) = _
  rw [h.maxAttempts]
  rfl

theorem nextDelay_eq {F : Type} [Number F] {m : RetryManager} (hbase : m.baseDelayMs = 500)
    (hmax : m.maxDelayMs = 30000) {k : Nat} (hk : k < 4) {random : F}
    (hjitter : jitter (500 * 2 ^ k) random ≤ 25 * 2 ^ k) :
    ∃ d, m.nextDelay (k + 1) random = .ok d ∧ 500 * 2 ^ k ≤ d ∧ 20 * d ≤ 21 * (500 * 2 ^ k) := by
  have hpow : 2 ^ k ≤ 2 ^ 3 := Nat.pow_le_pow_right (by decide) (Nat.le_of_lt_succ hk)
  unfold nextDelay
  rw [Nat.add_sub_cancel, checked_of_lt (by omega), hbase, hmax]
  dsimp only [bind, Except.bind]
  rw [checked_of_lt (by omega)]
  dsimp only
  rw [checked_of_lt (by omega)]
  exact ⟨_, rfl, by omega, by omega⟩

/-- The failures before the fifth. -/
theorem Tracks.backs_off (h : m.Tracks log) {operation target : String} {k : Nat}
    (hstreak : log.streak (keyOf operation target) = k) (hk : k < 4) (now : Nat)
    {random : Binary64} (hrandom : Ieee.InUnit random) :
    ∃ d status, 500 * 2 ^ k ≤ d ∧ 20 * d ≤ 21 * (500 * 2 ^ k) ∧ status.Counts (k + 1) ∧
      m.recordFailure operation target now random =
        .ok (some d, { m with retries := m.retries.insert (keyOf operation target) status }) := by
  have hattempts := h.attempts_eq (keyOf operation target)
    (show (⟨now, 0, false, m.baseDelayMs, operation, target⟩ : RetryStatus).attempts = 0 from rfl)
  have hpow : 2 ^ k ≤ 2 ^ 3 := Nat.pow_le_pow_right (by decide) (Nat.le_of_lt_succ hk)
  have hone : 1 ≤ 2 ^ k := Nat.one_le_two_pow
  obtain ⟨d, hdelay, hlow, hhigh⟩ :=
    nextDelay_eq h.baseDelayMs h.maxDelayMs hk (jitter_le hk hrandom)
  let status : RetryStatus :=
    { (m.retries.lookup (keyOf operation target)).getD
        ⟨now, 0, false, m.baseDelayMs, operation, target⟩ with
      lastAttempt := now, attempts := k + 1, currentDelayMs := d, inBackoff := true }
  have hcounts : status.Counts (k + 1) :=
    ⟨rfl, Nat.le_add_left 1 k, Nat.succ_le_of_lt hk, rfl, (show 500 ≤ d by omega),
      show d ≤ 30000 by omega⟩
  refine ⟨d, status, hlow, hhigh, hcounts, ?_⟩
  unfold recordFailure
  dsimp only
  rw [hattempts, hstreak, checked_of_lt (by omega), h.maxAttempts]
  show (if 5 ≤ k + 1 then _ else m.nextDelay (k + 1) random >>= _) = _
  rw [if_neg (by omega), hdelay]
  rfl

/-! ### Runs -/

theorem tracks_new : new.Tracks ([] : RetryLog Binary64) where
  maxAttempts := rfl
  baseDelayMs := rfl
  maxDelayMs := rfl
  absent _ _ := rfl
  present _ _ h := by cases h

/-- The entry of a key that is settled goes. -/
theorem Tracks.erase (h : m.Tracks log) {call : RetryCall Binary64} {result : Option Nat}
    (hstreak : RetryLog.streak call.key ((call, result) :: log) = 0) :
    { m with retries := m.retries.erase call.key }.Tracks ((call, result) :: log) := by
  have hothers : ∀ key ≠ call.key,
      RetryLog.streak key ((call, result) :: log) = RetryLog.streak key log :=
    fun key hkey => if_neg (Ne.symm hkey)
  refine ⟨h.maxAttempts, h.baseDelayMs, h.maxDelayMs, fun key hlookup => ?_,
    fun key status hlookup => ?_⟩
  · by_cases hkey : key = call.key
    · rw [hkey, hstreak]
    · rw [Finmap.lookup_erase_ne hkey] at hlookup
      rw [hothers key hkey, h.absent key hlookup]
  · by_cases hkey : key = call.key
    · rw [hkey, Finmap.lookup_erase] at hlookup
      cases hlookup
    · rw [Finmap.lookup_erase_ne hkey] at hlookup
      rw [hothers key hkey]
      exact h.present key status hlookup

/-- A failure is counted in the entry of its key. -/
theorem Tracks.insert (h : m.Tracks log) {call : RetryCall Binary64} {result : Option Nat}
    {status : RetryStatus}
    (hstatus : status.Counts (RetryLog.streak call.key ((call, result) :: log))) :
    { m with retries := m.retries.insert call.key status }.Tracks ((call, result) :: log) := by
  have hothers : ∀ key ≠ call.key,
      RetryLog.streak key ((call, result) :: log) = RetryLog.streak key log :=
    fun key hkey => if_neg (Ne.symm hkey)
  refine ⟨h.maxAttempts, h.baseDelayMs, h.maxDelayMs, fun key hlookup => ?_,
    fun key entry hlookup => ?_⟩
  · by_cases hkey : key = call.key
    · rw [hkey, Finmap.lookup_insert] at hlookup
      cases hlookup
    · rw [Finmap.lookup_insert_of_ne _ hkey] at hlookup
      rw [hothers key hkey, h.absent key hlookup]
  · by_cases hkey : key = call.key
    · rw [hkey, Finmap.lookup_insert] at hlookup
      obtain rfl := Option.some.inj hlookup
      rw [hkey]
      exact hstatus
    · rw [Finmap.lookup_insert_of_ne _ hkey] at hlookup
      rw [hothers key hkey]
      exact h.present key entry hlookup

end RetryManager

namespace RetryRun
variable {m : RetryManager} {log : RetryLog Binary64}

/-- What the run so far says about a call, its result and the manager after it. -/
structure Books (log : RetryLog Binary64) (m : RetryManager) (call : RetryCall Binary64)
    (result : Option Nat) (m' : RetryManager) : Prop where
  gives_up : ∀ operation target now random,
    call = .recordFailure operation target now random →
      (result = none ↔ log.streak call.key + 1 = 5)
  delays : ∀ d, result = some d → 500 * 2 ^ log.streak call.key ≤ d ∧
    20 * d ≤ 21 * (500 * 2 ^ log.streak call.key)
  others : ∀ key ≠ call.key, m'.retries.lookup key = m.retries.lookup key

/-- One call keeps the books, and the invariant with them. -/
theorem perform_ok (h : m.Tracks log) {call : RetryCall Binary64} (hcall : call.Sampled) :
    ∃ result m', call.perform m = .ok (result, m') ∧ Books log m call result m' ∧
      m'.Tracks ((call, result) :: log) := by
  cases call with
  | recordSuccess operation target =>
    refine ⟨none, _, rfl, ⟨?_, ?_, ?_⟩,
      h.erase (RetryLog.streak_success operation target none log)⟩
    · intro _ _ _ _ hcall
      cases hcall
    · intro d hd
      cases hd
    · exact fun key hkey => Finmap.lookup_erase_ne hkey
  | recordFailure operation target now random =>
    rcases (h.streak_le (RetryManager.keyOf operation target)).eq_or_lt with hstreak | hstreak
    · refine ⟨none, _, h.gives_up hstreak now random, ⟨?_, ?_, ?_⟩, ?_⟩
      · intro _ _ _ _ _
        exact iff_of_true rfl (congrArg (· + 1) hstreak)
      · intro d hd
        cases hd
      · exact fun key hkey => Finmap.lookup_erase_ne hkey
      · exact @RetryManager.Tracks.erase _ _ h (.recordFailure operation target now random) none
          (RetryLog.streak_giveUp operation target now random log)
    · obtain ⟨d, status, hlow, hhigh, hcounts, hperformed⟩ := h.backs_off rfl hstreak now hcall
      refine ⟨some d, _, hperformed, ⟨?_, ?_, ?_⟩, ?_⟩
      · intro _ _ _ _ _
        have hne : log.streak (RetryManager.keyOf operation target) + 1 ≠ 5 := by omega
        exact iff_of_false (Option.some_ne_none d) hne
      · intro d' hd
        obtain rfl := Option.some.inj hd
        exact ⟨hlow, hhigh⟩
      · exact fun key hkey => Finmap.lookup_insert_of_ne _ hkey
      · refine @RetryManager.Tracks.insert _ _ h (.recordFailure operation target now random)
          (some d) status ?_
        exact (RetryLog.streak_failure operation target now random d log).symm ▸ hcounts

theorem tracks (run : RetryRun log m) : m.Tracks log := by
  induction run with
  | new => exact RetryManager.tracks_new
  | step run sampled performed ih =>
    obtain ⟨result, m', hperformed, -, htracks⟩ := perform_ok ih sampled
    rw [performed] at hperformed
    cases hperformed
    exact htracks

/-- An operation is in backoff from its first failure until it is settled. -/
theorem isInBackoff_iff (run : RetryRun log m) (operation target : String) :
    m.isInBackoff operation target = true ↔
      0 < log.streak (RetryManager.keyOf operation target) := by
  unfold RetryManager.isInBackoff
  cases hlookup : m.retries.lookup (RetryManager.keyOf operation target) with
  | none =>
    rw [run.tracks.absent _ hlookup]
    exact iff_of_false Bool.false_ne_true (Nat.lt_irrefl 0)
  | some status =>
    have hcounts := run.tracks.present _ status hlookup
    refine iff_of_true hcounts.inBackoff ?_
    rw [← hcounts.attempts]
    exact hcounts.some_attempt

/-- Along every run the entries count the failures since their keys were settled, no call overflows,
and a call changes no other key. -/
theorem books (run : RetryRun log m) :
    (∀ key status, m.retries.lookup key = some status → status.Counts (log.streak key)) ∧
      ∀ call : RetryCall Binary64, call.Sampled →
        ∃ result m', call.perform m = .ok (result, m') ∧ Books log m call result m' := by
  refine ⟨run.tracks.present, fun call hcall => ?_⟩
  obtain ⟨result, m', hperformed, hbooks, -⟩ := perform_ok run.tracks hcall
  exact ⟨result, m', hperformed, hbooks⟩

/-- The log and the manager after these calls, the last one first. -/
def after : List (RetryCall Binary64) → RetryLog Binary64 × RetryManager
  | [] => ([], .new)
  | call :: earlier =>
    match call.perform (after earlier).2 with
    | .ok (result, m) => ((call, result) :: (after earlier).1, m)
    | .error _ => after earlier

theorem run_after {calls : List (RetryCall Binary64)} (h : ∀ call ∈ calls, call.Sampled) :
    RetryRun (after calls).1 (after calls).2 := by
  induction calls with
  | nil => exact .new
  | cons call earlier ih =>
    obtain ⟨hcall, hearlier⟩ := List.forall_mem_cons.mp h
    unfold after
    cases hperform : call.perform (after earlier).2 with
    | ok r => exact .step (ih hearlier) hcall hperform
    | error e => exact ih hearlier

/-- The sample that makes no difference. -/
def half : Binary64 := Number.div (Number.ofNat 1) (Number.ofNat 2)

theorem inUnit_half : Ieee.InUnit half := ⟨by decide +kernel, by decide +kernel⟩

def dialFailed (target : String) (now : Nat) : RetryCall Binary64 :=
  .recordFailure "dial" target now half

/-- Ada cannot be reached five times, bob twice with a success between. -/
def dialled : List (RetryCall Binary64) :=
  [dialFailed "bob" 9, dialFailed "ada" 8, dialFailed "ada" 7, .recordSuccess "dial" "bob",
    dialFailed "ada" 5, dialFailed "bob" 4, dialFailed "ada" 3, dialFailed "ada" 2]

theorem sampled_dialled : ∀ call ∈ dialled, call.Sampled := by
  simp only [dialled, List.forall_mem_cons]
  exact ⟨inUnit_half, inUnit_half, inUnit_half, trivial, inUnit_half, inUnit_half, inUnit_half,
    inUnit_half, List.forall_mem_nil _⟩

theorem books_dialled :
    (after dialled).1.map Prod.snd =
        [some 500, none, some 4000, none, some 2000, some 500, some 1000, some 500] ∧
      (after dialled).1.streak "dial:ada" = 0 ∧ (after dialled).1.streak "dial:bob" = 1 ∧
      (∀ key status, (after dialled).2.retries.lookup key = some status →
        status.Counts ((after dialled).1.streak key)) ∧
      ∀ call : RetryCall Binary64, call.Sampled → ∃ result m',
        call.perform (after dialled).2 = .ok (result, m') ∧
          Books (after dialled).1 (after dialled).2 call result m' := by
  refine ⟨by decide +kernel, by decide +kernel, by decide +kernel, ?_⟩
  exact books (run_after sampled_dialled)

end RetryRun

end Covm
