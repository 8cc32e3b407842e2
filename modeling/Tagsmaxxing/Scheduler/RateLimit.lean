import Tagsmaxxing.Lib.Run
import Tagsmaxxing.Scheduler.TokenBucket

/-! # How many requests a rated capacity lets through (`capacity.rs`)

A `Rated` capacity charges one token of its request bucket for every permit, and gives the token back when the permit
is dropped. So the bucket bounds only the requests that were not given back. `credit`, what the bucket would hold after
a refill, is the potential of the argument: a request costs one, time earns at the rate, a dropped permit earns one, and
nothing else earns anything (`Turn.ledger`). Summed over a window this is `acquisitions_le`. -/

namespace Tagsmaxxing.Scheduler

/-! ## A capacity in use -/

namespace RateLimit

open Transition

/-- One poll of a future of `Capacity::acquire`: pending, or whether it returned a permit. With the semaphore
    permit in hand there is nothing left to await. -/
def pollAcquire (w : FutureId) (now : Time) (c : Capacity) : Option Bool × Capacity :=
  match c.poll w with
  | (false, c) => (none, c)
  | (true, c) =>
      match c.charge now with
      | (true, c) => (some true, c)
      | (false, c) => (some false, c.releasePermit)

/-- The capacity, the clock, and the number of permits in the hands of callers. -/
structure Meter where
  cap : Capacity
  now : Time
  held : ℕ

inductive Act
  | wait (d : ℚ)
  | tryAcquire
  | poll (w : FutureId)
  | cancel (w : FutureId)
  | isUsable
  | drop

/-- One call, one poll or one drop; the clock does not go back. -/
def step (m : Meter) : Act → Option Meter
  | .wait d => if 0 ≤ d then some { m with now := m.now + d } else none
  | .tryAcquire =>
      let r := m.cap.tryAcquire m.now
      some { m with cap := r.2, held := if r.1 then m.held + 1 else m.held }
  | .poll w =>
      let r := pollAcquire w m.now m.cap
      some { m with cap := r.2, held := if r.1 = some true then m.held + 1 else m.held }
  | .cancel w => some { m with cap := m.cap.cancel w }
  | .isUsable => some { m with cap := (m.cap.isUsable m.now).2 }
  | .drop => if m.held = 0 then none else some { m with cap := m.cap.dropPermit, held := m.held - 1 }

/-- The edge is a `try_acquire` or an `acquire` that returned a permit. -/
def acquired (e : Edge Meter Act) : Bool :=
  match e.label with
  | .tryAcquire => (e.src.cap.tryAcquire e.src.now).1
  | .poll w => decide ((pollAcquire w e.src.now e.src.cap).1 = some true)
  | _ => false

/-- The edge is the drop of a permit. -/
def dropped (e : Edge Meter Act) : Bool :=
  match e.label with
  | .drop => true
  | _ => false

/-- A `Rated` capacity as `new_rated` makes it. -/
def start (conc : ℕ) (rpm tpm : ℚ) (now : Time) : Meter := ⟨.newRated conc rpm tpm now, now, 0⟩

/-! ## What one step does to the request bucket -/

/-- What an edge does to the clock and to the request bucket. -/
inductive Turn (e : Edge Meter Act) (b b' : TokenBucket) : Prop
  | waited (d : ℚ) (hd : 0 ≤ d) (hnow : e.dst.now = e.src.now + d) (hb : b' = b)
      (hacquired : acquired e = false)
  | untouched (hnow : e.dst.now = e.src.now) (hb : b' = b) (hacquired : acquired e = false)
  | refilled (hnow : e.dst.now = e.src.now) (hb : b' = b.refill e.src.now) (hacquired : acquired e = false)
  | consumed (hnow : e.dst.now = e.src.now) (hb : b.tryConsume 1 e.src.now = (true, b'))
  | bounced (b₁ : TokenBucket) (hnow : e.dst.now = e.src.now) (htaken : b.tryConsume 1 e.src.now = (true, b₁))
      (hb : b' = b₁.refund 1) (hacquired : acquired e = false)
  | refunded (hnow : e.dst.now = e.src.now) (hb : b' = b.refund 1) (hacquired : acquired e = false)
      (hdropped : dropped e = true)

/-- The request bucket of a `Rated` capacity. -/
def bucket : Capacity → Option TokenBucket
  | .rated _ rpm _ => some rpm
  | _ => none

theorem bucket_setSem (sem : Semaphore FutureId) (c : Capacity) : bucket (c.setSem sem) = bucket c := by
  cases c <;> rfl

variable {b : TokenBucket}

theorem bucket_eq_some {c : Capacity} (h : bucket c = some b) :
    ∃ sem tpm, c = .rated sem b tpm := by
  cases c with
  | rated sem rpm tpm => exact ⟨sem, tpm, by rw [Option.some.inj h]⟩
  | slots sem | concurrency sem => cases h

variable {m v : Meter}

/-- `try_acquire`: refused by the bucket, refused by the semaphore, or granted. -/
theorem tryAcquire_turn (hb : bucket m.cap = some b) (hs : step m .tryAcquire = some v) :
    ∃ b', bucket v.cap = some b' ∧ Turn ⟨m, .tryAcquire, v⟩ b b' := by
  obtain ⟨sem, tpm, hcap⟩ := bucket_eq_some hb
  cases hs
  cases hconsume : b.tryConsume 1 m.now with
  | mk granted b₁ =>
    cases granted with
    | false =>
      have htry : m.cap.tryAcquire m.now = (false, .rated sem b₁ tpm) := by
        rw [hcap]
        unfold Capacity.tryAcquire
        dsimp only
        rw [hconsume]
      refine ⟨b₁, congrArg (fun r => bucket r.2) htry, .refilled rfl ?_ (congrArg Prod.fst htry)⟩
      exact TokenBucket.eq_refill_of_refused hconsume
    | true =>
      cases hsem : sem.tryAcquire with
      | some sem' =>
        have htry : m.cap.tryAcquire m.now = (true, .rated sem' b₁ (tpm.tryConsume 0 m.now).2) := by
          rw [hcap]
          unfold Capacity.tryAcquire
          dsimp only
          rw [hconsume]
          dsimp only
          rw [hsem]
        exact ⟨b₁, congrArg (fun r => bucket r.2) htry, .consumed rfl hconsume⟩
      | none =>
        have htry : m.cap.tryAcquire m.now = (false, .rated sem (b₁.refund 1) (tpm.tryConsume 0 m.now).2) := by
          rw [hcap]
          unfold Capacity.tryAcquire
          dsimp only
          rw [hconsume]
          dsimp only
          rw [hsem]
        exact ⟨b₁.refund 1, congrArg (fun r => bucket r.2) htry, .bounced b₁ rfl hconsume rfl (congrArg Prod.fst htry)⟩

/-- A poll of `acquire`: pending, refused by the bucket once it has a permit, or granted. -/
theorem poll_turn (hb : bucket m.cap = some b) {w : FutureId} (hs : step m (.poll w) = some v) :
    ∃ b', bucket v.cap = some b' ∧ Turn ⟨m, .poll w, v⟩ b b' := by
  cases hs
  have hpolled : bucket (m.cap.poll w).2 = some b := (bucket_setSem _ _).trans hb
  -- what the poll returned decides whether the edge acquired
  have hnot : ∀ v r, pollAcquire w m.now m.cap = r → r.1 ≠ some true →
      acquired ⟨m, .poll w, v⟩ = false := by
    rintro v r rfl hne
    exact decide_eq_false hne
  cases hpoll : m.cap.poll w with
  | mk ready c =>
    rw [hpoll] at hpolled
    cases ready with
    | false =>
      have hanswer : pollAcquire w m.now m.cap = (none, c) := by
        unfold pollAcquire
        rw [hpoll]
      exact ⟨b, (congrArg (fun r => bucket r.2) hanswer).trans hpolled, .untouched rfl rfl (hnot _ _ hanswer (by simp))⟩
    | true =>
      obtain ⟨sem, tpm, rfl⟩ := bucket_eq_some hpolled
      cases hconsume : b.tryConsume 1 m.now with
      | mk granted b₁ =>
        cases granted with
        | false =>
          have hanswer : pollAcquire w m.now m.cap = (some false, (Capacity.rated sem b₁ tpm).releasePermit) := by
            have hcharge : (Capacity.rated sem b tpm).charge m.now = (false, .rated sem b₁ tpm) := by
              unfold Capacity.charge
              dsimp only
              rw [hconsume]
            unfold pollAcquire
            rw [hpoll]
            dsimp only
            rw [hcharge]
          refine ⟨b₁, congrArg (fun r => bucket r.2) hanswer,
            .refilled rfl (TokenBucket.eq_refill_of_refused hconsume) ?_⟩
          exact hnot _ _ hanswer (by simp)
        | true =>
          have hanswer : pollAcquire w m.now m.cap = (some true, .rated sem b₁ (tpm.tryConsume 0 m.now).2) := by
            have hcharge : (Capacity.rated sem b tpm).charge m.now =
                (true, .rated sem b₁ (tpm.tryConsume 0 m.now).2) := by
              unfold Capacity.charge
              dsimp only
              rw [hconsume]
            unfold pollAcquire
            rw [hpoll]
            dsimp only
            rw [hcharge]
          exact ⟨b₁, congrArg (fun r => bucket r.2) hanswer, .consumed rfl hconsume⟩

theorem step_turn {a : Act} (hb : bucket m.cap = some b) (hs : step m a = some v) :
    ∃ b', bucket v.cap = some b' ∧ Turn ⟨m, a, v⟩ b b' := by
  cases a with
  | wait d =>
    simp only [step] at hs
    split at hs <;> cases hs
    next hd => exact ⟨b, hb, .waited d hd rfl rfl rfl⟩
  | tryAcquire => exact tryAcquire_turn hb hs
  | poll w => exact poll_turn hb hs
  | cancel w =>
    cases hs
    exact ⟨b, (bucket_setSem _ _).trans hb, .untouched rfl rfl rfl⟩
  | isUsable =>
    cases hs
    obtain ⟨sem, tpm, hcap⟩ := bucket_eq_some hb
    refine ⟨b.refill m.now, by simp [hcap, Capacity.isUsable, bucket, TokenBucket.available], ?_⟩
    exact .refilled rfl rfl rfl
  | drop =>
    simp only [step] at hs
    split at hs <;> cases hs
    obtain ⟨sem, tpm, hcap⟩ := bucket_eq_some hb
    refine ⟨b.refund 1, ?_, .refunded rfl rfl rfl rfl⟩
    simp [hcap, Capacity.dropPermit, Capacity.releasePermit, Capacity.setSem, bucket]

/-! ## Windows -/

/-- One for an edge that counts. -/
def tally (p : Edge Meter Act → Bool) (e : Edge Meter Act) : ℚ := if p e then 1 else 0

section

variable (p : Edge Meter Act → Bool) (e : Edge Meter Act)

theorem tally_nonneg : 0 ≤ tally p e := by
  unfold tally
  split
  · exact zero_le_one
  · exact le_refl 0

theorem tally_le_one : tally p e ≤ 1 := by
  unfold tally
  split
  · exact le_refl 1
  · exact zero_le_one

end

variable {e : Edge Meter Act} {p : Edge Meter Act → Bool}

theorem tally_of_not (h : p e = false) : tally p e = 0 := by
  simp [tally, h]

theorem tally_of (h : p e = true) : tally p e = 1 := by
  simp [tally, h]

theorem countP_snoc (p : Edge Meter Act → Bool) (es : List (Edge Meter Act)) (e : Edge Meter Act) :
    ((es ++ [e]).countP p : ℚ) = es.countP p + tally p e := by
  rw [List.countP_append, Nat.cast_add, List.countP_singleton, tally]
  split <;> simp

/-- **The ledger of one step**: the credit pays for the permit, and grows with time and with drops only. -/
theorem Turn.ledger {b' : TokenBucket} (h : Turn e b b') (hs : b.Sound e.src.now) :
    b'.Sound e.dst.now ∧ b'.rate = b.rate ∧ b'.maxTokens = b.maxTokens ∧
      tally acquired e + b'.credit e.dst.now ≤
        b.credit e.src.now + (e.dst.now - e.src.now) * b.rate + tally dropped e := by
  have hdrop := tally_nonneg dropped e
  cases h with
  | waited d hd hnow hb hacquired =>
    subst hb
    rw [hnow, add_sub_cancel_left, tally_of_not hacquired]
    have hearned := hs.credit_wait hd
    exact ⟨hs.wait hd, rfl, rfl, by linarith⟩
  | untouched hnow hb hacquired =>
    subst hb
    rw [hnow, sub_self, zero_mul, tally_of_not hacquired]
    exact ⟨hs, rfl, rfl, by linarith⟩
  | refilled hnow hb hacquired =>
    subst hb
    rw [hnow, sub_self, zero_mul, tally_of_not hacquired, hs.credit_refill]
    exact ⟨hs.refill, rfl, rfl, by linarith⟩
  | consumed hnow hb =>
    obtain ⟨hsound, hrate, hmax, hcredit⟩ := hs.consume zero_le_one hb
    rw [hnow, sub_self, zero_mul, hcredit]
    have hone := tally_le_one acquired e
    exact ⟨hsound, hrate, hmax, by linarith⟩
  | bounced b₁ hnow htaken hb hacquired =>
    subst hb
    obtain ⟨hsound, hrate, hmax, hcredit⟩ := hs.consume zero_le_one htaken
    obtain ⟨hrefunded, hback⟩ := hsound.refund zero_le_one
    have hback := hback.trans_le (min_le_left _ _)
    rw [hnow, sub_self, zero_mul, tally_of_not hacquired]
    exact ⟨hrefunded, hrate, hmax, by linarith⟩
  | refunded hnow hb hacquired hdropped =>
    subst hb
    obtain ⟨hrefunded, hback⟩ := hs.refund zero_le_one
    have hback := hback.trans_le (min_le_left _ _)
    rw [hnow, sub_self, zero_mul, tally_of_not hacquired, tally_of hdropped]
    exact ⟨hrefunded, rfl, rfl, by linarith⟩

/-- The capacity has a sound request bucket with the limit `r`. -/
structure Limits (r : ℚ) (m : Meter) (b : TokenBucket) : Prop where
  bucket_eq : bucket m.cap = some b
  sound : b.Sound m.now
  rate_eq : b.rate = r / 60
  max_eq : b.maxTokens = r

theorem limits_start (conc : ℕ) {r : ℚ} (hr : 0 < r) (tpm : ℚ) (now : Time) :
    Limits r (start conc r tpm now) (.new (r / 60) r now) where
  bucket_eq := rfl
  sound := ⟨hr.le, le_refl r, div_nonneg hr.le (by norm_num), le_refl now⟩
  rate_eq := rfl
  max_eq := rfl

/-- **The ledger of a window**, by induction on its steps. -/
theorem ledger_run {r : ℚ} {u : Meter} {es : List (Edge Meter Act)} (hm : Limits r m b)
    (hrun : Run (Fires step) m es u) : ∃ b', Limits r u b' ∧ (es.countP acquired : ℚ) + b'.credit u.now ≤
      b.credit m.now + (u.now - m.now) * (r / 60) + es.countP dropped := by
  refine hrun.history_invariant (I := fun es u => ∃ b', Limits r u b' ∧
    (es.countP acquired : ℚ) + b'.credit u.now ≤
      b.credit m.now + (u.now - m.now) * (r / 60) + es.countP dropped) ⟨b, hm, by simp⟩ ?_
  rintro es t a v hstep ⟨b', ht, hledger⟩
  obtain ⟨b'', hbucket, hturn⟩ := step_turn ht.bucket_eq hstep
  obtain ⟨hsound, hrate, hmax, hone⟩ := hturn.ledger ht.sound
  refine ⟨b'', ⟨hbucket, hsound, hrate.trans ht.rate_eq, hmax.trans ht.max_eq⟩, ?_⟩
  rw [countP_snoc, countP_snoc]
  rw [ht.rate_eq] at hone
  linarith

/-- **The requests of a window**: in any window of `W` seconds of any run, the permits acquired are at most
    the limit, what the bucket earns in the window, and the permits dropped in it. -/
theorem acquisitions_le (conc : ℕ) {r : ℚ} (hr : 0 < r) (tpm : ℚ) (t₀ : Time) {m u : Meter}
    {before window : List (Edge Meter Act)} (hbefore : Run (Fires step) (start conc r tpm t₀) before m)
    (hwindow : Run (Fires step) m window u) {W : ℚ} (hW : u.now ≤ m.now + W) :
    (window.countP acquired : ℚ) ≤ r + W * r / 60 + window.countP dropped := by
  obtain ⟨b, hb, -⟩ := ledger_run (limits_start conc hr tpm t₀) hbefore
  obtain ⟨b', hb', hledger⟩ := ledger_run hb hwindow
  have hfull : b.credit m.now ≤ r := hb.max_eq ▸ TokenBucket.credit_le_max m.now b
  have hleft := hb'.sound.credit_nonneg
  have hearned : (u.now - m.now) * (r / 60) ≤ W * (r / 60) :=
    mul_le_mul_of_nonneg_right (by linarith) (div_nonneg hr.le (by norm_num))
  have hrate : W * (r / 60) = W * r / 60 := by ring
  linarith

/-- One request a minute: a permit is held from before, the window is a minute long, and of its two
    requests one gets through. -/
theorem acquisitions_one_minute :
    ∃ before m window u, Run (Fires step) (start 2 1 1 0) before m ∧ Run (Fires step) m window u ∧
      window.countP acquired = 1 ∧ (window.countP acquired : ℚ) ≤ 1 + 60 * 1 / 60 + window.countP dropped := by
  obtain ⟨before, m, hbefore, hnext⟩ : ∃ before m, Run (Fires step) (start 2 1 1 0) before m ∧
      ((runEdges step m [.wait 60, .tryAcquire, .tryAcquire]).any fun r =>
        r.1.countP acquired = 1 ∧ r.2.now ≤ m.now + 60) = true := exists_run_where [.tryAcquire] (by decide +kernel)
  obtain ⟨window, u, hwindow, hcount, htime⟩ := exists_run_where
    (P := fun es u => es.countP acquired = 1 ∧ u.now ≤ m.now + 60) _ hnext
  exact ⟨before, m, window, u, hbefore, hwindow, hcount, acquisitions_le 2 zero_lt_one 1 0 hbefore hwindow htime⟩

/-- One request a minute, one at a time: three requests one after the other, all at the same instant. -/
theorem three_requests_at_once :
    ∃ window u, Run (Fires step) (start 1 1 1 0) window u ∧ u.now ≤ (start 1 1 1 0).now + 0 ∧
      window.countP acquired = 3 ∧ ¬ (window.countP acquired : ℚ) ≤ 1 + 0 * 1 / 60 := by
  exact exists_run_where [.tryAcquire, .drop, .tryAcquire, .drop, .tryAcquire] (by decide +kernel)

end RateLimit

end Tagsmaxxing.Scheduler
