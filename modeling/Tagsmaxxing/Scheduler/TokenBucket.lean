import Tagsmaxxing.Scheduler.Capacity

/-! # The token bucket over time (`capacity.rs`)

`credit`, what the bucket would hold after a refill, is what its calls are about: time earns at the rate, a
granted request costs what it takes, a refund earns what it returns, all up to the maximum. When exactly
the refills happen makes no difference (`SameCredit`): a call of `available`, or a request that is refused, only
moves credit into the balance. Summed over a window the credit bounds what is consumed (`ledger_run`). -/

namespace Tagsmaxxing.Scheduler

/-! ## The bucket's ledger -/

namespace TokenBucket

theorem min_add_min_of_nonneg {x d m : ℚ} (hd : 0 ≤ d) : min (min x m + d) m = min (x + d) m := by
  rw [← min_add_add_right, min_assoc, min_eq_right (le_add_of_nonneg_right hd)]

/-- What the bucket would hold after a refill. -/
def credit (now : Time) (b : TokenBucket) : ℚ :=
  min (b.tokens + (now - b.lastRefill) * b.rate) b.maxTokens

/-- The balance is within its bounds, and the last refill is not in the future. -/
structure Sound (now : Time) (b : TokenBucket) : Prop where
  nonneg : 0 ≤ b.tokens
  le_max : b.tokens ≤ b.maxTokens
  rate_nonneg : 0 ≤ b.rate
  past : b.lastRefill ≤ now

variable {b : TokenBucket} {now : Time}

theorem Sound.accrued_nonneg (h : b.Sound now) : 0 ≤ (now - b.lastRefill) * b.rate :=
  mul_nonneg (sub_nonneg.2 h.past) h.rate_nonneg

theorem Sound.credit_nonneg (h : b.Sound now) : 0 ≤ b.credit now :=
  le_min (add_nonneg h.nonneg h.accrued_nonneg) (h.nonneg.trans h.le_max)

theorem credit_le_max (now : Time) (b : TokenBucket) : b.credit now ≤ b.maxTokens := min_le_right _ _

theorem Sound.tokens_refill (h : b.Sound now) : (b.refill now).tokens = b.credit now := by
  have helapsed : max (now - b.lastRefill) 0 = now - b.lastRefill := max_eq_left (sub_nonneg.2 h.past)
  simp only [refill, helapsed, credit]
  split
  · rfl
  next hfull =>
    -- no time has passed, or the bucket is full
    obtain htime | hmax : now - b.lastRefill = 0 ∨ b.tokens = b.maxTokens := by
      by_cases htime : 0 < now - b.lastRefill
      · exact .inr (le_antisymm h.le_max (not_lt.1 fun hlt => hfull ⟨htime, hlt⟩))
      · exact .inl (le_antisymm (not_lt.1 htime) (sub_nonneg.2 h.past))
    · rw [htime, zero_mul, add_zero, min_eq_left h.le_max]
    · rw [← hmax, min_eq_right (le_add_of_nonneg_right h.accrued_nonneg)]

/-- The credit of a bucket that was just refilled is its balance. -/
theorem credit_of_refilled (hlast : b.lastRefill = now) (hle : b.tokens ≤ b.maxTokens) :
    b.credit now = b.tokens := by
  rw [credit, hlast, sub_self, zero_mul, add_zero, min_eq_left hle]

theorem Sound.refill (h : b.Sound now) : (b.refill now).Sound now where
  nonneg := h.tokens_refill ▸ h.credit_nonneg
  le_max := h.tokens_refill ▸ credit_le_max now b
  rate_nonneg := h.rate_nonneg
  past := le_refl now

theorem Sound.credit_refill (h : b.Sound now) : (b.refill now).credit now = b.credit now := by
  have hlast : (b.refill now).lastRefill = now := rfl
  rw [credit_of_refilled hlast h.refill.le_max, h.tokens_refill]

theorem Sound.credit_wait (h : b.Sound now) {d : ℚ} (hd : 0 ≤ d) :
    b.credit (now + d) ≤ b.credit now + d * b.rate := by
  have hearned : 0 ≤ d * b.rate := mul_nonneg hd h.rate_nonneg
  have hsplit : b.tokens + (now + d - b.lastRefill) * b.rate =
      b.tokens + (now - b.lastRefill) * b.rate + d * b.rate := by ring
  rw [credit, credit, hsplit, ← min_add_add_right]
  exact min_le_min_left _ (le_add_of_nonneg_right hearned)

theorem Sound.wait (h : b.Sound now) {d : ℚ} (hd : 0 ≤ d) : b.Sound (now + d) :=
  ⟨h.nonneg, h.le_max, h.rate_nonneg, h.past.trans (le_add_of_nonneg_right hd)⟩

variable {n : ℚ}

theorem Sound.consume {b' : TokenBucket} (h : b.Sound now) (hn : 0 ≤ n) (hc : b.tryConsume n now = (true, b')) :
    b'.Sound now ∧ b'.rate = b.rate ∧ b'.maxTokens = b.maxTokens ∧ b'.credit now = b.credit now - n := by
  simp only [tryConsume] at hc
  split at hc <;> cases hc
  rename_i henough
  have hle : (b.refill now).tokens - n ≤ b.maxTokens := by
    have := h.refill.le_max
    have hmax : (b.refill now).maxTokens = b.maxTokens := rfl
    linarith
  refine ⟨⟨sub_nonneg.2 henough, hle, h.rate_nonneg, le_refl now⟩, rfl, rfl, ?_⟩
  have hcredit : TokenBucket.credit now { b.refill now with tokens := (b.refill now).tokens - n } =
      (b.refill now).tokens - n := credit_of_refilled rfl hle
  rw [hcredit, h.tokens_refill]

theorem eq_refill_of_refused {b' : TokenBucket} (hc : b.tryConsume n now = (false, b')) : b' = b.refill now := by
  simp only [tryConsume] at hc
  split at hc <;> cases hc
  rfl

theorem Sound.refund (h : b.Sound now) (hn : 0 ≤ n) :
    (b.refund n).Sound now ∧ (b.refund n).credit now = min (b.credit now + n) b.maxTokens := by
  have hmax : 0 ≤ b.maxTokens := h.nonneg.trans h.le_max
  refine ⟨⟨le_min (add_nonneg h.nonneg hn) hmax, min_le_right _ _, h.rate_nonneg, h.past⟩, ?_⟩
  have haccrued := h.accrued_nonneg
  show min (min (b.tokens + n) b.maxTokens + (now - b.lastRefill) * b.rate) b.maxTokens = _
  rw [min_add_min_of_nonneg haccrued, credit, min_add_min_of_nonneg hn, add_right_comm]

/-! ## Calls -/

inductive Op
  | tryConsume (n : ℚ) (now : Time)
  | refund (n : ℚ) (now : Time)
  | available (now : Time)

namespace Op

def time : Op → Time
  | .tryConsume _ now | .refund _ now | .available now => now

/-- Amounts are not negative. -/
def Valid : Op → Prop
  | .tryConsume n _ | .refund n _ => 0 ≤ n
  | .available _ => True

def isAvailable : Op → Bool
  | .available _ => true
  | .tryConsume _ _ | .refund _ _ => false

end Op

/-- What a call returns. -/
inductive Answer
  | granted (yes : Bool)
  | refunded
  | balance (tokens : ℚ)

def answer (b : TokenBucket) : Op → Answer
  | .tryConsume n now => .granted (b.tryConsume n now).1
  | .refund _ _ => .refunded
  | .available now => .balance (b.available now).1

def next (b : TokenBucket) : Op → TokenBucket
  | .tryConsume n now => (b.tryConsume n now).2
  | .refund n _ => b.refund n
  | .available now => (b.available now).2

def run (b : TokenBucket) (ops : List Op) : TokenBucket := ops.foldl next b

/-- The calls are valid and the clock does not go back, from `t` over the calls to `now`. -/
inductive Timed (now : Time) : Time → List Op → Prop
  | nil {t : Time} : t ≤ now → Timed now t []
  | cons {t : Time} {op : Op} {ops : List Op} : t ≤ op.time → op.Valid → Timed now op.time ops →
      Timed now t (op :: ops)

/-- The tokens a call takes out. -/
def consumedBy (b : TokenBucket) : Op → ℚ
  | .tryConsume n now => if (b.tryConsume n now).1 then n else 0
  | .refund _ _ | .available _ => 0

/-- The tokens a call puts back, which may be less than it is asked to. -/
def creditedBy (b : TokenBucket) : Op → ℚ
  | .refund n _ => (b.refund n).tokens - b.tokens
  | .tryConsume _ _ | .available _ => 0

/-- The tokens a call is asked to put back. -/
def refundedBy : Op → ℚ
  | .refund n _ => n
  | .tryConsume _ _ | .available _ => 0

def consumed (b : TokenBucket) : List Op → ℚ
  | [] => 0
  | op :: ops => b.consumedBy op + consumed (b.next op) ops

def credited (b : TokenBucket) : List Op → ℚ
  | [] => 0
  | op :: ops => b.creditedBy op + credited (b.next op) ops

def refunded : List Op → ℚ
  | [] => 0
  | op :: ops => refundedBy op + refunded ops

/-! ## One call -/

variable {later : Time}

theorem Sound.mono (h : b.Sound now) (hle : now ≤ later) : b.Sound later :=
  ⟨h.nonneg, h.le_max, h.rate_nonneg, h.past.trans hle⟩

/-- What is earned from `now` on depends on the credit at `now` only. -/
theorem Sound.credit_later (h : b.Sound now) (hle : now ≤ later) :
    b.credit later = min (b.credit now + (later - now) * b.rate) b.maxTokens := by
  have hearned : 0 ≤ (later - now) * b.rate := mul_nonneg (sub_nonneg.2 hle) h.rate_nonneg
  have hsplit : b.tokens + (later - b.lastRefill) * b.rate =
      b.tokens + (now - b.lastRefill) * b.rate + (later - now) * b.rate := by ring
  rw [credit, credit, hsplit, min_add_min_of_nonneg hearned]

theorem Sound.tryConsume_fst (h : b.Sound now) : (b.tryConsume n now).1 = decide (n ≤ b.credit now) := by
  rw [tryConsume, ← h.tokens_refill]
  split_ifs with henough
  · exact (decide_eq_true henough).symm
  · exact (decide_eq_false henough).symm

theorem settings_next (b : TokenBucket) (op : Op) :
    (b.next op).rate = b.rate ∧ (b.next op).maxTokens = b.maxTokens := by
  cases op with
  | tryConsume n now =>
    rw [next, tryConsume]
    split_ifs
    all_goals exact ⟨rfl, rfl⟩
  | refund n now | available now => exact ⟨rfl, rfl⟩

/-- The credit after a call is the credit before it, less what the call takes, plus what it puts back. -/
def creditAfter (c max : ℚ) : Op → ℚ
  | .tryConsume n _ => if n ≤ c then c - n else c
  | .refund n _ => min (c + n) max
  | .available _ => c

variable {op : Op}

theorem Sound.next (h : b.Sound op.time) (hop : op.Valid) :
    (b.next op).Sound op.time ∧ (b.next op).credit op.time = creditAfter (b.credit op.time) b.maxTokens op := by
  cases op with
  | tryConsume n now =>
    have hanswer := h.tryConsume_fst (n := n)
    show (b.tryConsume n now).2.Sound now ∧ (b.tryConsume n now).2.credit now = _
    cases hc : b.tryConsume n now with
    | mk yes b' =>
      rw [Op.time, hc] at hanswer
      cases yes with
      | true =>
        obtain ⟨hsound, -, -, hcredit⟩ := Sound.consume h hop hc
        refine ⟨hsound, hcredit.trans ?_⟩
        exact (if_pos (of_decide_eq_true hanswer.symm)).symm
      | false =>
        obtain rfl := eq_refill_of_refused hc
        refine ⟨Sound.refill h, (Sound.credit_refill h).trans ?_⟩
        exact (if_neg (of_decide_eq_false hanswer.symm)).symm
  | refund n now => exact Sound.refund h hop
  | available now => exact ⟨Sound.refill h, Sound.credit_refill h⟩

/-- What a call takes and what it leaves is covered by the credit before it and what it puts back. -/
theorem Sound.ledger (h : b.Sound op.time) (hop : op.Valid) :
    b.consumedBy op + (b.next op).credit op.time ≤ b.credit op.time + b.creditedBy op := by
  have hcredit := (h.next hop).2
  cases op with
  | tryConsume n now =>
    have h : b.Sound now := h
    have hcredit : (b.next (.tryConsume n now)).credit now =
      if n ≤ b.credit now then b.credit now - n else b.credit now := hcredit
    show b.consumedBy (.tryConsume n now) + (b.next (.tryConsume n now)).credit now ≤ b.credit now + 0
    rw [consumedBy, hcredit, h.tryConsume_fst]
    by_cases henough : n ≤ b.credit now
    · rw [if_pos (decide_eq_true henough), if_pos henough]
      linarith
    · rw [decide_eq_false henough, if_neg Bool.false_ne_true, if_neg henough]
      linarith
  | refund n now =>
    -- the balance grows by what is put back, the credit by no more
    have hback : 0 ≤ (b.refund n).tokens - b.tokens := sub_nonneg.2 (le_min (le_add_of_nonneg_right hop) h.le_max)
    have hgrown : (b.refund n).credit now = min (b.tokens + (now - b.lastRefill) * b.rate +
        ((b.refund n).tokens - b.tokens)) b.maxTokens := by
      rw [add_right_comm, add_sub_cancel]
      rfl
    rw [consumedBy, creditedBy, zero_add]
    show (b.refund n).credit now ≤ b.credit now + _
    rw [hgrown, credit, ← min_add_add_right]
    exact min_le_min_left _ (le_add_of_nonneg_right hback)
  | available now =>
    rw [consumedBy, creditedBy, zero_add, add_zero]
    exact hcredit.le

section

variable (b : TokenBucket)

theorem creditedBy_le (op : Op) : b.creditedBy op ≤ refundedBy op := by
  cases op with
  | tryConsume n now | available now => exact le_refl 0
  | refund n now =>
    have hcapped : (b.refund n).tokens ≤ b.tokens + n := min_le_left _ _
    exact sub_le_iff_le_add'.2 hcapped

/-! ## Runs -/

theorem run_cons (op : Op) (ops : List Op) : b.run (op :: ops) = (b.next op).run ops := rfl

theorem run_append (ops ops' : List Op) : b.run (ops ++ ops') = (b.run ops).run ops' :=
  List.foldl_append ..

end

variable {ops : List Op} {t : Time}

theorem Timed.append {ops' : List Op} (h : Timed now t (ops ++ ops')) :
    ∃ mid, Timed mid t ops ∧ Timed now mid ops' := by
  induction ops generalizing t with
  | nil => exact ⟨t, .nil (le_refl t), h⟩
  | cons op ops ih =>
    cases h with
    | cons htime hop hrest =>
      obtain ⟨mid, hops, hops'⟩ := ih hrest
      exact ⟨mid, .cons htime hop hops, hops'⟩

/-- The first calls end when the last of them is made. -/
theorem Timed.until {till : Time} (h : Timed now t ops) (ht : t ≤ till) (htill : ∀ op ∈ ops, op.time ≤ till) :
    Timed till t ops := by
  induction h with
  | nil _ => exact .nil ht
  | @cons t op ops htime hop _ ih =>
    exact .cons htime hop (ih (htill op (by simp)) fun o ho => htill o (List.mem_cons_of_mem op ho))

theorem Sound.run (h : b.Sound t) (hops : Timed now t ops) : (b.run ops).Sound now := by
  induction hops generalizing b with
  | nil hle => exact h.mono hle
  | cons htime hop _ ih => exact ih ((h.mono htime).next hop).1

theorem settings_run (b : TokenBucket) (ops : List Op) :
    (b.run ops).rate = b.rate ∧ (b.run ops).maxTokens = b.maxTokens := by
  induction ops generalizing b with
  | nil => exact ⟨rfl, rfl⟩
  | cons op ops ih =>
    obtain ⟨hrate, hmax⟩ := ih (b.next op)
    exact ⟨hrate.trans (settings_next b op).1, hmax.trans (settings_next b op).2⟩

/-- What is consumed comes out of the credit at the start, of what time earns, and of what is put back. -/
theorem Sound.ledger_run (h : b.Sound t) (hops : Timed now t ops) :
    b.consumed ops + (b.run ops).credit now ≤ b.credit t + (now - t) * b.rate + b.credited ops := by
  induction hops generalizing b with
  | @nil t hle =>
    have hearned := (h.credit_later hle).trans_le (min_le_left _ _)
    rw [consumed, credited, zero_add, add_zero]
    exact hearned
  | @cons t op ops htime hop _ ih =>
    have hsound := h.mono htime
    have hearned := (h.credit_later htime).trans_le (min_le_left _ _)
    have hstep := hsound.ledger hop
    have hrest := ih (hsound.next hop).1
    rw [(settings_next b op).1] at hrest
    rw [consumed, credited, run_cons]
    have hsplit : (now - t) * b.rate = (op.time - t) * b.rate + (now - op.time) * b.rate := by ring
    linarith

theorem credited_le_refunded (b : TokenBucket) (ops : List Op) : b.credited ops ≤ refunded ops := by
  induction ops generalizing b with
  | nil => exact le_refl 0
  | cons op ops ih => exact add_le_add (creditedBy_le b op) (ih (b.next op))

/-- Over calls within `W` seconds. -/
theorem Sound.consumed_window {a W : Time} (h : b.Sound t) (hops : Timed now t ops) (hW : 0 ≤ W)
    (hwindow : ∀ op ∈ ops, a ≤ op.time ∧ op.time ≤ a + W) :
    b.consumed ops - b.credited ops ≤ b.maxTokens + b.rate * W := by
  have hearned : 0 ≤ b.rate * W := mul_nonneg h.rate_nonneg hW
  cases hops with
  | nil _ =>
    rw [consumed, credited, sub_zero]
    exact add_nonneg (h.nonneg.trans h.le_max) hearned
  | @cons _ op ops htime hop hrest =>
    -- the window starts with its first call
    obtain ⟨hstart, hend⟩ := hwindow op (by simp)
    have hsound := h.mono htime
    have htimed : Timed (a + W) op.time (op :: ops) :=
      .cons (le_refl _) hop (hrest.until hend fun o ho => (hwindow o (List.mem_cons_of_mem op ho)).2)
    have hledger := hsound.ledger_run htimed
    have hmax := credit_le_max op.time b
    have hleft := (hsound.run htimed).credit_nonneg
    have helapsed : (a + W - op.time) * b.rate ≤ b.rate * W := by
      rw [mul_comm b.rate W]
      exact mul_le_mul_of_nonneg_right (by linarith) h.rate_nonneg
    linarith

/-! ## Buckets with the same credit -/

/-- Two buckets that differ in when they were refilled only. -/
structure SameCredit (now : Time) (b b' : TokenBucket) : Prop where
  rate_eq : b.rate = b'.rate
  max_eq : b.maxTokens = b'.maxTokens
  left : b.Sound now
  right : b'.Sound now
  credit_eq : b.credit now = b'.credit now

namespace SameCredit

variable {b' : TokenBucket}

theorem refl (h : b.Sound now) : SameCredit now b b := ⟨rfl, rfl, h, h, rfl⟩

theorem mono (h : SameCredit now b b') (hle : now ≤ later) : SameCredit later b b' where
  rate_eq := h.rate_eq
  max_eq := h.max_eq
  left := h.left.mono hle
  right := h.right.mono hle
  credit_eq := by rw [h.left.credit_later hle, h.right.credit_later hle, h.credit_eq, h.rate_eq, h.max_eq]

section

variable (h : SameCredit op.time b b')

include h

theorem answer_eq : b.answer op = b'.answer op := by
  cases op with
  | tryConsume n now =>
    have h : SameCredit now b b' := h
    rw [answer, answer, h.left.tryConsume_fst, h.right.tryConsume_fst, h.credit_eq]
  | refund n now => rfl
  | available now =>
    have h : SameCredit now b b' := h
    exact congrArg Answer.balance (h.left.tokens_refill.trans (h.credit_eq.trans h.right.tokens_refill.symm))

theorem next (hop : op.Valid) : SameCredit op.time (b.next op) (b'.next op) where
  rate_eq := (settings_next b op).1.trans (h.rate_eq.trans (settings_next b' op).1.symm)
  max_eq := (settings_next b op).2.trans (h.max_eq.trans (settings_next b' op).2.symm)
  left := (h.left.next hop).1
  right := (h.right.next hop).1
  credit_eq := by rw [(h.left.next hop).2, (h.right.next hop).2, h.credit_eq, h.max_eq]

/-- A call that leaves the credit alone can be left out. -/
theorem skip (hop : op.Valid) (hsilent : creditAfter (b.credit op.time) b.maxTokens op = b.credit op.time) :
    SameCredit op.time (b.next op) b' where
  rate_eq := (settings_next b op).1.trans h.rate_eq
  max_eq := (settings_next b op).2.trans h.max_eq
  left := (h.left.next hop).1
  right := h.right
  credit_eq := by rw [(h.left.next hop).2, hsilent, h.credit_eq]

end

variable (h : SameCredit t b b') (hops : Timed now t ops)

include h hops

theorem run : SameCredit now (b.run ops) (b'.run ops) := by
  induction hops generalizing b b' with
  | nil hle => exact h.mono hle
  | cons htime hop _ ih => exact ih ((h.mono htime).next hop)

theorem run_filter : SameCredit now (b.run ops) (b'.run (ops.filter fun op => !op.isAvailable)) := by
  induction hops generalizing b b' with
  | nil hle => exact h.mono hle
  | @cons t op ops htime hop _ ih =>
    have h := h.mono htime
    cases op with
    | tryConsume n now | refund n now => exact ih (h.next hop)
    | available now => exact ih (h.skip hop rfl)

end SameCredit

theorem sound_new {rate max : ℚ} (hrate : 0 ≤ rate) (hmax : 0 ≤ max) (t : Time) : (new rate max t).Sound t :=
  ⟨hmax, le_refl max, hrate, le_refl t⟩

theorem Sound.creditAfter_refused (h : b.Sound now) (hrefused : (b.tryConsume n now).1 = false) :
    creditAfter (b.credit now) b.maxTokens (.tryConsume n now) = b.credit now := by
  rw [h.tryConsume_fst] at hrefused
  exact if_neg (of_decide_eq_false hrefused)

/-- After any valid calls since the bucket was made: the balance is within its bounds; what `available` returns
    is the same without the earlier calls of it; a refused request can be left out; and over `W` seconds
    no more is consumed, less what was put back, than the bucket holds and the rate earns. What was put back
    is counted after the cap, so it is at most what was asked to be. -/
theorem token_bucket_laws {rate max : ℚ} (hrate : 0 ≤ rate) (hmax : 0 ≤ max) {t₀ now : Time} {ops : List Op}
    (hops : Timed now t₀ ops) :
    (0 ≤ ((new rate max t₀).run ops).tokens ∧ ((new rate max t₀).run ops).tokens ≤ max) ∧
    (((new rate max t₀).run ops).available now).1 =
      (((new rate max t₀).run (ops.filter fun op => !op.isAvailable)).available now).1 ∧
    (∀ pre n t post, ops = pre ++ .tryConsume n t :: post →
      (((new rate max t₀).run pre).tryConsume n t).1 = false →
      ∀ op : Op, now ≤ op.time →
        ((new rate max t₀).run ops).answer op = ((new rate max t₀).run (pre ++ post)).answer op) ∧
    (∀ pre win post a W, ops = pre ++ win ++ post → 0 ≤ W →
      (∀ op ∈ win, a ≤ op.time ∧ op.time ≤ a + W) →
      ((new rate max t₀).run pre).consumed win - ((new rate max t₀).run pre).credited win ≤ max + rate * W ∧
      ((new rate max t₀).run pre).credited win ≤ refunded win) := by
  have hnew := sound_new hrate hmax t₀
  refine ⟨?_, ?_, ?_, ?_⟩
  · have hsound := hnew.run hops
    exact ⟨hsound.nonneg, hsound.le_max.trans_eq (settings_run _ ops).2⟩
  · have hsame := (SameCredit.refl hnew).run_filter hops
    exact hsame.left.tokens_refill.trans (hsame.credit_eq.trans hsame.right.tokens_refill.symm)
  · rintro pre n t post rfl hrefused op hop
    obtain ⟨mid, hpre, hrest⟩ := hops.append
    cases hrest with
    | cons htime hvalid hpost =>
      have hsound := (hnew.run hpre).mono htime
      have hsame := (SameCredit.refl hsound).skip hvalid (hsound.creditAfter_refused hrefused)
      rw [run_append, run_append]
      exact ((hsame.run hpost).mono hop).answer_eq
  · rintro pre win post a W rfl hW hwindow
    rw [List.append_assoc] at hops
    obtain ⟨mid, hpre, hrest⟩ := hops.append
    obtain ⟨till, hwin, -⟩ := hrest.append
    have hbound := (hnew.run hpre).consumed_window hwin hW hwindow
    rw [(settings_run _ pre).1, (settings_run _ pre).2] at hbound
    exact ⟨hbound, credited_le_refunded _ win⟩

/-- A bucket of ten that earns one a second: eight are taken, five more are refused a second later, two come
    back, and `available` says seven in the end, with or without the earlier call of it. -/
theorem token_bucket_of_ten :
    (((new 1 10 0).run [.tryConsume 8 0, .available 1, .tryConsume 5 1, .refund 2 2]).available 3).1 = 7 ∧
      (((new 1 10 0).run [.tryConsume 8 0, .tryConsume 5 1, .refund 2 2]).available 3).1 = 7 := by
  have htimed : Timed 3 0 [.tryConsume 8 0, .available 1, .tryConsume 5 1, .refund 2 2] := by
    refine .cons ?_ ?_ (.cons ?_ trivial (.cons ?_ ?_ (.cons ?_ ?_ (.nil ?_))))
    all_goals norm_num [Op.Valid, Op.time]
  have hsame := (token_bucket_laws zero_le_one (by norm_num : (0 : ℚ) ≤ 10) htimed).2.1
  have hseven : (((new 1 10 0).run [.tryConsume 8 0, .tryConsume 5 1, .refund 2 2]).available 3).1 = 7 := by
    decide +kernel
  exact ⟨hsame.trans hseven, hseven⟩

end TokenBucket

end Tagsmaxxing.Scheduler
