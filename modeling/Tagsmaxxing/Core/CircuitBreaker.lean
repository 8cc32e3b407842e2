import Mathlib.Data.List.Induction
import Tagsmaxxing.Core.Types

/-! # The circuit breaker (`core/src/circuit_breaker.rs`)

A breaker keeps, for each dependency, a count of consecutive failures and the end of a cooldown. `is_open`
is not only a read: it makes an entry for a key it does not know, and clears a cooldown that is over. What it
answers is a law of the trace alone (`isOpen_trace_law`): how many failures of the key follow its last success,
and when the last one was. `Tracks` is what ties the entry of a key to that trace; it lets a cooldown
be cleared once it is over, since the clock does not go back. -/

namespace Tagsmaxxing

open List

/-! ## The breaker -/

/-- `CircuitState`, with `CircuitState::default()`. -/
structure CircuitState where
  failures : ℕ := 0
  cooldownUntil : Option Time := none

/-- `CircuitBreaker`; the threshold is a `u32`. -/
structure CircuitBreaker where
  threshold : ℕ
  cooldown : Time
  states : Keyed String CircuitState
  threshold_lt : threshold < 2 ^ 32

namespace CircuitBreaker

def new (threshold : UInt32) (cooldown : Time) : CircuitBreaker :=
  ⟨threshold.toNat, cooldown, .empty, threshold.toNat_lt⟩

/-- `guard.entry(key).or_default()`. -/
def entry (b : CircuitBreaker) (key : String) : CircuitState := (b.states.get? key).getD {}

/-- Write the entry of a key. -/
def setEntry (b : CircuitBreaker) (key : String) (entry : CircuitState) : CircuitBreaker :=
  { b with states := b.states.upsert key entry }

/-- The answer, and the breaker with the cooldown cleared if it is over. -/
def isOpen (key : String) (now : Time) (b : CircuitBreaker) : Bool × CircuitBreaker :=
  if b.threshold = 0 then (false, b)
  else
    match (b.entry key).cooldownUntil with
    | some till =>
        if now < till then (true, b.setEntry key (b.entry key))
        else (false, b.setEntry key { b.entry key with cooldownUntil := none })
    | none => (false, b.setEntry key (b.entry key))

def recordSuccess (key : String) (b : CircuitBreaker) : CircuitBreaker :=
  if b.threshold = 0 then b else { b with states := b.states.deleteWhere fun k _ => k == key }

/-- The update that `record_failure` makes; the counter saturates. -/
def trip (now : Time) (b : CircuitBreaker) (entry : CircuitState) : CircuitState :=
  let failures := min (entry.failures + 1) (2 ^ 32 - 1)
  ⟨failures, if b.threshold ≤ failures then some (now + b.cooldown) else entry.cooldownUntil⟩

def recordFailure (key : String) (now : Time) (b : CircuitBreaker) : CircuitBreaker :=
  if b.threshold = 0 then b else b.setEntry key (b.trip now (b.entry key))

def failures (key : String) (b : CircuitBreaker) : ℕ := (b.entry key).failures

/-! ## Traces -/

inductive Event
  | recordSuccess (key : String) (now : Time)
  | recordFailure (key : String) (now : Time)
  | isOpen (key : String) (now : Time)

namespace Event

def time : Event → Time
  | .recordSuccess _ now | .recordFailure _ now | .isOpen _ now => now

def isSuccessOf (key : String) : Event → Bool
  | .recordSuccess k _ => k == key
  | _ => false

def isFailureOf (key : String) : Event → Bool
  | .recordFailure k _ => k == key
  | _ => false

/-- Whether the event records a call of `key`. -/
def records (key : String) (e : Event) : Bool := e.isSuccessOf key || e.isFailureOf key

end Event

def step (b : CircuitBreaker) : Event → CircuitBreaker
  | .recordSuccess key _ => b.recordSuccess key
  | .recordFailure key now => b.recordFailure key now
  | .isOpen key now => (b.isOpen key now).2

def run (b : CircuitBreaker) (events : List Event) : CircuitBreaker := events.foldl step b

/-- The number of failures of a key since its last success. -/
def failuresSince (key : String) (events : List Event) : ℕ :=
  (events.reverse.takeWhile fun e => !e.isSuccessOf key).countP (Event.isFailureOf key)

/-- The time of the last failure of a key. -/
def lastFailure (key : String) (events : List Event) : Option Time :=
  (events.reverse.find? (Event.isFailureOf key)).map Event.time

/-! ## What an event does to the entry of a key -/

variable {b : CircuitBreaker} {key : String}

theorem entry_setEntry (b : CircuitBreaker) (k : String) (s : CircuitState) (key : String) :
    (b.setEntry k s).entry key = if key = k then s else b.entry key := by
  rw [entry, setEntry, Keyed.get?_upsert]
  split_ifs
  · rfl
  · rfl

theorem entry_recordSuccess (hpos : b.threshold ≠ 0) (k key : String) :
    (b.recordSuccess k).entry key = if key = k then {} else b.entry key := by
  rw [entry, recordSuccess, if_neg hpos, Keyed.get?_deleteWhere]
  by_cases hk : key = k
  · simp [hk]
  · rw [if_neg hk, entry]
    cases b.states.get? key with
    | none => rfl
    | some s =>
      rw [Option.filter_some, if_pos (by simp [hk])]

theorem entry_recordFailure (hpos : b.threshold ≠ 0) (k : String) (now : Time) (key : String) :
    (b.recordFailure k now).entry key = if key = k then b.trip now (b.entry k) else b.entry key := by
  rw [recordFailure, if_neg hpos, entry_setEntry]

/-- A query clears a cooldown that is over, and changes nothing else that is read. -/
theorem entry_isOpen (k : String) (now : Time) (b : CircuitBreaker) (key : String) :
    ((b.isOpen k now).2.entry key = b.entry key) ∨
      ∃ till, (b.entry key).cooldownUntil = some till ∧ till ≤ now ∧
        (b.isOpen k now).2.entry key = { b.entry key with cooldownUntil := none } := by
  have hsame : (b.setEntry k (b.entry k)).entry key = b.entry key := by
    rw [entry_setEntry]
    split_ifs with hk
    · rw [hk]
    · rfl
  rw [isOpen]
  split_ifs with hzero
  · exact .inl rfl
  · split
    next till htill =>
      split_ifs with hnow
      · exact .inl hsame
      · rw [entry_setEntry]
        split_ifs with hk
        · subst hk
          exact .inr ⟨till, htill, not_lt.1 hnow, rfl⟩
        · exact .inl rfl
    next => exact .inl hsame

theorem settings_step (b : CircuitBreaker) (e : Event) :
    (b.step e).threshold = b.threshold ∧ (b.step e).cooldown = b.cooldown := by
  cases e with
  | recordSuccess k now =>
    rw [step, recordSuccess]
    split_ifs
    all_goals exact ⟨rfl, rfl⟩
  | recordFailure k now =>
    rw [step, recordFailure]
    split_ifs
    all_goals exact ⟨rfl, rfl⟩
  | isOpen k now =>
    rw [step, isOpen]
    split_ifs
    · exact ⟨rfl, rfl⟩
    · split
      · split_ifs
        all_goals exact ⟨rfl, rfl⟩
      · exact ⟨rfl, rfl⟩

/-! ## The entry of a key and its trace -/

section

variable (key : String) (events : List Event) (e : Event)

@[simp] theorem failuresSince_concat : failuresSince key (events ++ [e]) = if e.isSuccessOf key then 0
      else failuresSince key events + if e.isFailureOf key then 1 else 0 := by
  rw [failuresSince, reverse_append, reverse_singleton, singleton_append, takeWhile_cons]
  cases hs : e.isSuccessOf key with
  | true => rfl
  | false => exact countP_cons

@[simp] theorem lastFailure_concat :
    lastFailure key (events ++ [e]) = if e.isFailureOf key then some e.time else lastFailure key events := by
  rw [lastFailure, reverse_append, reverse_singleton, singleton_append, find?_cons]
  cases hf : e.isFailureOf key with
  | true | false => rfl

end

/-- The entry of `key` after the events, when the clock shows `now`. -/
structure Tracks (b : CircuitBreaker) (key : String) (events : List Event) (now : Time) : Prop where
  failures_eq : (b.entry key).failures = min (failuresSince key events) (2 ^ 32 - 1)
  closed : failuresSince key events < b.threshold → (b.entry key).cooldownUntil = none
  /-- a cooldown runs from the last failure, and may be forgotten when it is over -/
  tripped : b.threshold ≤ failuresSince key events →
    ∃ last, lastFailure key events = some last ∧
      ((b.entry key).cooldownUntil = some (last + b.cooldown) ∨
        (b.entry key).cooldownUntil = none ∧ last + b.cooldown ≤ now)

variable {events : List Event} {now : Time}

/-- An event that leaves the entry and the record of the key alone. -/
theorem Tracks.of_entry_eq {b' : CircuitBreaker} {events' : List Event} {now' : Time}
    (h : Tracks b key events now) (hentry : b'.entry key = b.entry key)
    (hsettings : b'.threshold = b.threshold ∧ b'.cooldown = b.cooldown)
    (hsince : failuresSince key events' = failuresSince key events)
    (hlast : lastFailure key events' = lastFailure key events) (hnow : now ≤ now') :
    Tracks b' key events' now' where
  failures_eq := by rw [hentry, hsince, h.failures_eq]
  closed hlt := by
    rw [hsince, hsettings.1] at hlt
    rw [hentry, h.closed hlt]
  tripped hle := by
    rw [hsince, hsettings.1] at hle
    obtain ⟨last, hlast', htill⟩ := h.tripped hle
    rw [hlast, hentry, hsettings.2]
    exact ⟨last, hlast', htill.imp_right fun hover => ⟨hover.1, hover.2.trans hnow⟩⟩

variable {t : Time} {e : Event}

section

variable (h : Tracks b key events now)

include h

theorem Tracks.recordSuccess (hpos : b.threshold ≠ 0) (k : String) (ht : now ≤ t) :
    Tracks (b.recordSuccess k) key (events ++ [.recordSuccess k t]) t := by
  have hentry := entry_recordSuccess hpos k key
  have hsettings := settings_step b (.recordSuccess k t)
  by_cases hk : key = k
  · subst hk
    rw [if_pos rfl] at hentry
    have hzero : failuresSince key (events ++ [.recordSuccess key t]) = 0 := by
      simp [Event.isSuccessOf]
    refine ⟨by simp [hentry, hzero], fun _ => by rw [hentry], fun hle => ?_⟩
    rw [hzero, Nat.le_zero] at hle
    exact absurd (hsettings.1 ▸ hle) hpos
  · rw [if_neg hk] at hentry
    refine h.of_entry_eq hentry hsettings ?_ ?_ ht
    · simp [Event.isSuccessOf, Event.isFailureOf, Ne.symm hk]
    · simp [Event.isFailureOf]

theorem Tracks.recordFailure (hpos : b.threshold ≠ 0) (k : String) (ht : now ≤ t) :
    Tracks (b.recordFailure k t) key (events ++ [.recordFailure k t]) t := by
  have hentry := entry_recordFailure hpos k t key
  have hsettings := settings_step b (.recordFailure k t)
  by_cases hk : key = k
  · subst hk
    rw [if_pos rfl] at hentry
    have hsucc : failuresSince key (events ++ [.recordFailure key t]) = failuresSince key events + 1 := by
      simp [Event.isSuccessOf, Event.isFailureOf]
    have hcount : (b.trip t (b.entry key)).failures = min (failuresSince key events + 1) (2 ^ 32 - 1) := by
      show min ((b.entry key).failures + 1) (2 ^ 32 - 1) = _
      rw [h.failures_eq]
      omega
    -- the threshold is a `u32`, so saturation does not hide that it is reached
    have hreached : b.threshold ≤ (b.trip t (b.entry key)).failures ↔
        b.threshold ≤ failuresSince key events + 1 := by
      have := b.threshold_lt
      rw [hcount]
      omega
    refine ⟨by rw [hentry, hsucc, hcount], fun hlt => ?_, fun hle => ⟨t, ?_, .inl ?_⟩⟩
    · rw [hsucc] at hlt
      have hlt : failuresSince key events + 1 < b.threshold := hsettings.1 ▸ hlt
      rw [hentry]
      exact (if_neg (hreached.not.2 (not_le.2 hlt))).trans (h.closed (by omega))
    · simp [Event.isFailureOf, Event.time]
    · rw [hsucc] at hle
      have hle : b.threshold ≤ failuresSince key events + 1 := hsettings.1 ▸ hle
      have hcooldown : (b.recordFailure key t).cooldown = b.cooldown := hsettings.2
      rw [hentry, hcooldown]
      exact if_pos (hreached.2 hle)
  · rw [if_neg hk] at hentry
    refine h.of_entry_eq hentry hsettings ?_ ?_ ht
    · simp [Event.isSuccessOf, Event.isFailureOf, Ne.symm hk]
    · simp [Event.isFailureOf, Ne.symm hk]

theorem Tracks.isOpen (k : String) (ht : now ≤ t) :
    Tracks (b.isOpen k t).2 key (events ++ [.isOpen k t]) t := by
  have hsettings := settings_step b (.isOpen k t)
  have hsince : failuresSince key (events ++ [.isOpen k t]) = failuresSince key events := by
    simp [Event.isSuccessOf, Event.isFailureOf]
  have hlast : lastFailure key (events ++ [.isOpen k t]) = lastFailure key events := by
    simp [Event.isFailureOf]
  rcases entry_isOpen k t b key with hentry | ⟨till, htill, hover, hentry⟩
  · exact h.of_entry_eq hentry hsettings hsince hlast ht
  · refine ⟨?_, fun _ => by rw [hentry], fun hle => ?_⟩
    · rw [hentry, hsince, ← h.failures_eq]
    · rw [hsince] at hle
      obtain ⟨last, hlast', hcooldown | hnone⟩ := h.tripped (hsettings.1 ▸ hle)
      · have hend : till = last + b.cooldown := Option.some.inj (htill.symm.trans hcooldown)
        have hsame : (b.isOpen k t).2.cooldown = b.cooldown := hsettings.2
        refine ⟨last, hlast ▸ hlast', .inr ⟨by rw [hentry], ?_⟩⟩
        rw [hsame, ← hend]
        exact hover
      · rw [hnone.1] at htill
        cases htill

theorem Tracks.step (hpos : b.threshold ≠ 0) (he : now ≤ e.time) : Tracks (b.step e) key (events ++ [e]) e.time := by
  cases e with
  | recordSuccess k t => exact h.recordSuccess hpos k he
  | recordFailure k t => exact h.recordFailure hpos k he
  | isOpen k t => exact h.isOpen k he

end

theorem tracks_new (threshold : UInt32) (cooldown : Time) (key : String) (now : Time)
    (hpos : threshold.toNat ≠ 0) : Tracks (new threshold cooldown) key [] now where
  failures_eq := rfl
  closed _ := rfl
  tripped hle := absurd (Nat.le_zero.1 hle) hpos

section

variable (b : CircuitBreaker) (events : List Event)

theorem run_concat (e : Event) : b.run (events ++ [e]) = (b.run events).step e := by
  rw [run, run, foldl_append, foldl_cons, foldl_nil]

theorem settings_run : (b.run events).threshold = b.threshold ∧ (b.run events).cooldown = b.cooldown := by
  induction events using reverseRecOn with
  | nil => exact ⟨rfl, rfl⟩
  | append_singleton events e ih =>
    rw [run_concat]
    exact ⟨(settings_step _ e).1.trans ih.1, (settings_step _ e).2.trans ih.2⟩

end

/-- The clock does not go back over the events, and shows `now` at the end. -/
def Timed (events : List Event) (now : Time) : Prop := (events.map Event.time ++ [now]).Pairwise (· ≤ ·)

theorem Timed.concat (h : Timed (events ++ [e]) now) : Timed events e.time ∧ e.time ≤ now := by
  rw [Timed, map_append, map_singleton, pairwise_append] at h
  exact ⟨h.1, h.2.2 e.time (by simp) now (by simp)⟩

variable {threshold : UInt32}

section

variable (cooldown : Time) (hpos : threshold.toNat ≠ 0) (key : String) (h : Timed events now)

include hpos h

theorem tracks_run : Tracks ((new threshold cooldown).run events) key events now := by
  induction events using reverseRecOn generalizing now with
  | nil => exact tracks_new threshold cooldown key now hpos
  | append_singleton events e ih =>
    obtain ⟨hevents, he⟩ := h.concat
    have hset : ((new threshold cooldown).run events).threshold = threshold.toNat := (settings_run _ events).1
    rw [run_concat]
    have hstep := (ih hevents).step (hset ▸ hpos) (le_refl e.time)
    exact hstep.of_entry_eq rfl ⟨rfl, rfl⟩ rfl rfl he

/-- The counter is the number of failures since the last success, as far as a `u32` goes. -/
theorem failures_run :
    ((new threshold cooldown).run events).failures key = min (failuresSince key events) (2 ^ 32 - 1) :=
  (tracks_run cooldown hpos key h).failures_eq

end

theorem failures_two : ((new 3 60).run [.recordFailure "a" 0, .recordFailure "a" 5]).failures "a" = 2 := by
  have h : Timed [.recordFailure "a" 0, .recordFailure "a" 5] 5 := by simp [Timed, Event.time]
  exact failures_run 60 (by decide) "a" h

/-! ## The law -/

theorem isOpen_eq_true (hpos : b.threshold ≠ 0) (key : String) (now : Time) :
    (b.isOpen key now).1 = true ↔ ∃ till, (b.entry key).cooldownUntil = some till ∧ now < till := by
  rw [isOpen, if_neg hpos]
  split
  next till htill =>
    rw [htill]
    split_ifs with hnow
    all_goals simp [hnow]
  next hnone => simp [hnone]

theorem Tracks.isOpen_iff (h : Tracks b key events now) (hpos : b.threshold ≠ 0) :
    (b.isOpen key now).1 = true ↔ b.threshold ≤ failuresSince key events ∧
      ∃ last, lastFailure key events = some last ∧ now < last + b.cooldown := by
  rw [isOpen_eq_true hpos]
  constructor
  · rintro ⟨till, htill, hnow⟩
    have hle : b.threshold ≤ failuresSince key events := by
      by_contra hlt
      rw [h.closed (not_le.1 hlt)] at htill
      cases htill
    obtain ⟨last, hlast, hcooldown | hnone⟩ := h.tripped hle
    · cases hcooldown.symm.trans htill
      exact ⟨hle, last, hlast, hnow⟩
    · rw [hnone.1] at htill
      cases htill
  · rintro ⟨hle, last, hlast, hnow⟩
    obtain ⟨last', hlast', hcooldown | hnone⟩ := h.tripped hle
    · cases hlast.symm.trans hlast'
      exact ⟨last + b.cooldown, hcooldown, hnow⟩
    · cases hlast.symm.trans hlast'
      exact absurd hnone.2 (not_le.2 hnow)

/-- The law is about the records of the key only. -/
theorem filter_records (key : String) (events : List Event) :
    failuresSince key (events.filter (Event.records key)) = failuresSince key events ∧
      lastFailure key (events.filter (Event.records key)) = lastFailure key events := by
  induction events using reverseRecOn with
  | nil => exact ⟨rfl, rfl⟩
  | append_singleton events e ih =>
    obtain ⟨hsince, hlast⟩ := ih
    rw [filter_append, filter_singleton, failuresSince_concat, lastFailure_concat]
    cases hs : e.isSuccessOf key with
    | true | false =>
      cases hf : e.isFailureOf key with
      | true | false => simp [Event.records, hs, hf, hsince, hlast]

theorem Timed.filter (p : Event → Bool) (h : Timed events now) : Timed (events.filter p) now :=
  h.sublist ((filter_sublist.map Event.time).append_right [now])

theorem isOpen_run_iff (threshold : UInt32) (cooldown : Time) (key : String) (h : Timed events now) :
    (((new threshold cooldown).run events).isOpen key now).1 = true ↔
      0 < threshold.toNat ∧ threshold.toNat ≤ failuresSince key events ∧
        ∃ last, lastFailure key events = some last ∧ now < last + cooldown := by
  obtain ⟨hthreshold, hcooldown⟩ := settings_run (new threshold cooldown) events
  by_cases hzero : threshold.toNat = 0
  · have hoff : ((new threshold cooldown).run events).threshold = 0 := hthreshold.trans hzero
    simp [CircuitBreaker.isOpen, hoff, hzero]
  · have hiff := (tracks_run cooldown hzero key h).isOpen_iff (hthreshold ▸ hzero)
    rw [hthreshold, hcooldown] at hiff
    simp only [Nat.pos_of_ne_zero hzero, true_and]
    exact hiff

/-- At any time of any trace the breaker of a key is open exactly when enough failures follow the key's last
    success and the last one's cooldown is not over. The queries before, and all calls of other keys, can be
    left out. -/
theorem isOpen_trace_law (threshold : UInt32) (cooldown : Time) {events : List Event} {now : Time}
    (h : Timed events now) (key : String) :
    ((((new threshold cooldown).run events).isOpen key now).1 = true ↔
      0 < threshold.toNat ∧ threshold.toNat ≤ failuresSince key events ∧
        ∃ last, lastFailure key events = some last ∧ now < last + cooldown) ∧
    (((new threshold cooldown).run events).isOpen key now).1 =
      (((new threshold cooldown).run (events.filter (Event.records key))).isOpen key now).1 := by
  refine ⟨isOpen_run_iff threshold cooldown key h, Bool.eq_iff_iff.2 ?_⟩
  rw [isOpen_run_iff threshold cooldown key h, isOpen_run_iff threshold cooldown key (h.filter _),
    (filter_records key events).1, (filter_records key events).2]

/-- Two failures of one key and a query in between open its breaker, which is over at the end of the cooldown. -/
theorem isOpen_two_failures :
    (((new 2 30).run [.recordFailure "b2" 0, .isOpen "b2" 1, .recordFailure "b2" 2]).isOpen "b2" 31).1 = true ∧
      (((new 2 30).run [.recordFailure "b2" 0, .isOpen "b2" 1, .recordFailure "b2" 2]).isOpen "b2" 32).1 = false := by
  have hrise : Timed [.recordFailure "b2" 0, .isOpen "b2" 1, .recordFailure "b2" 2] 31 := by
    unfold Timed
    decide +kernel
  refine ⟨(isOpen_trace_law 2 30 hrise "b2").1.2 ?_, by decide +kernel⟩
  exact ⟨by decide, by decide, 2, by decide +kernel, by norm_num⟩

end CircuitBreaker

end Tagsmaxxing
