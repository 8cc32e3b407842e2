import Tagsmaxxing.Lib.Calendar
import Tagsmaxxing.Lib.Run
import Tagsmaxxing.Lib.Table

/-! # The monthly token rollup (`pg_store.rs`)

`insert_usage_event` stores an event and, in the same transaction, adds its tokens to the counter of the tenant and
month. `reconcile_month_token_rollup` compares the counter of the current month with the sum over the stored events,
in two transactions, and if they differ overwrites the counter in a third. The system interleaves whole transactions;
`now()` in one is the time it began, which may be well before it commits.

Two things keep the counter and the sum apart. The counter is chosen by the event's own `created_at`, while the
stored row gets the time of the insert. And an event that is inserted between the two reads of a reconciliation is in
the counter but not in the sum, so the overwrite takes it out again. Otherwise the two agree: `rollup_consistent`. -/

namespace Tagsmaxxing.UsageRollup

open Option Calendar Transition

/-! ## Tables and transactions -/

/-- What the two tables keep of a `UsageEvent`. -/
structure UsageEvent where
  tenantId : Int
  promptTokens : Option Int
  completionTokens : Option Int
  createdAt : Timestamp

/-- `usage_events` and `tenant_monthly_usage`. -/
structure Db where
  usageEvents : Serial UsageEvent
  tenantMonthlyUsage : Keyed (Int × Int) Int

/-- A value of a `BIGINT`; out of range is an error. -/
def bigint (n : Int) : Option Int := if -2 ^ 63 ≤ n ∧ n < 2 ^ 63 then some n else none

theorem eq_of_bigint {n m : Int} (h : bigint n = some m) : n = m := by
  unfold bigint at h
  split at h
  · exact Option.some.inj h
  · cases h

/-- The prompt and completion tokens of an event. -/
def UsageEvent.tokens (event : UsageEvent) : Int :=
  event.promptTokens.getD 0 + event.completionTokens.getD 0

/-- `insert_usage_event`, in a transaction that began at `now`: `USAGE_INSERT_SQL` has no `created_at`,
    so the row gets the column's default. -/
def insertUsageEvent (event : UsageEvent) (now : Timestamp) (db : Db) : Option (ℕ × Db) :=
  let id := db.usageEvents.next
  let usageEvents := db.usageEvents.insert { event with createdAt := now }
  if 0 < event.tokens then do
    -- `MONTHLY_ROLLUP_UPSERT_SQL`
    let key := (event.tenantId, utcMonth event.createdAt)
    let used ← bigint ((db.tenantMonthlyUsage.get? key).getD 0 + event.tokens)
    some (id, ⟨usageEvents, db.tenantMonthlyUsage.upsert key used⟩)
  else some (id, { db with usageEvents := usageEvents })

/-- The tokens of a tenant's rows whose month passes a test. -/
def Db.tokensWhere (db : Db) (tenantId : Int) (p : Int → Bool) : Int :=
  ((db.usageEvents.rows.filter fun x =>
    x.2.tenantId == tenantId && p (utcMonth x.2.createdAt)).map fun x => x.2.tokens).sum

/-- The window has no end, only the start of the current month. -/
def getTokenUsage (tenantId : Int) (now : Timestamp) (db : Db) : Option Int :=
  bigint (db.tokensWhere tenantId fun month => utcMonth now ≤ month)

/-- The counter of a tenant and month, 0 if there is none. -/
def Db.rollup (db : Db) (tenantId month : Int) : Int :=
  (db.tenantMonthlyUsage.get? (tenantId, month)).getD 0

def getCurrentMonthTokenRollup (tenantId : Int) (now : Timestamp) (db : Db) : Int :=
  db.rollup tenantId (utcMonth now)

/-- `MONTHLY_ROLLUP_RECONCILE_SQL`. -/
def overwriteRollup (tenantId authoritative : Int) (now : Timestamp) (db : Db) : Db :=
  { db with tenantMonthlyUsage := db.tenantMonthlyUsage.upsert (tenantId, utcMonth now) authoritative }

/-! ## The system -/

/-- Where a call of `reconcile_month_token_rollup` is: before each of its transactions, or done. -/
inductive Pc
  | usage
  | rollup (authoritative : Int)
  | correct (authoritative : Int)
  | returned (authoritative : Int)
  /-- a transaction failed, or the caller dropped the call -/
  | failed
deriving DecidableEq

/-- A call: `since` is when its last transaction ended, or when it was made. -/
structure Reconcile where
  tenantId : Int
  since : Timestamp
  pc : Pc

structure State where
  db : Db
  clock : Timestamp
  reconciles : Serial Reconcile

inductive Act
  /-- time passes -/
  | tick (now : Timestamp)
  /-- `insert_usage_event` commits its transaction -/
  | insert (event : UsageEvent) (began : Timestamp)
  /-- a call of `reconcile_month_token_rollup` -/
  | reconcile (tenantId : Int)
  /-- a call commits its next transaction -/
  | run (t : ℕ) (began : Timestamp)
  | fail (t : ℕ)

/-- Whether the call is over. -/
def Pc.isDone : Pc → Bool
  | .returned _ | .failed => true
  | _ => false

/-- The next transaction of a call: where it is then, and the tables. -/
def Reconcile.next (r : Reconcile) (began : Timestamp) (db : Db) : Option (Pc × Db) :=
  match r.pc with
  | .usage =>
      match getTokenUsage r.tenantId began db with
      | some authoritative => some (.rollup authoritative, db)
      | none => some (.failed, db)
  | .rollup authoritative =>
      if authoritative ≠ getCurrentMonthTokenRollup r.tenantId began db then
        some (.correct authoritative, db)
      else some (.returned authoritative, db)
  | .correct authoritative =>
      some (.returned authoritative, overwriteRollup r.tenantId authoritative began db)
  | .returned _ | .failed => none

/-- One step; none if the action is not possible. -/
def step (s : State) : Act → Option State
  | .tick now => if s.clock ≤ now then some { s with clock := now } else none
  | .insert event began => do
      guard (began ≤ s.clock)
      let (_, db) ← insertUsageEvent event began s.db
      some { s with db := db }
  | .reconcile tenantId =>
      some { s with reconciles := s.reconciles.insert ⟨tenantId, s.clock, .usage⟩ }
  | .run t began => do
      let r ← s.reconciles.get? t
      guard (r.since ≤ began ∧ began ≤ s.clock)
      let (pc, db) ← r.next began s.db
      some { s with
        db := db
        reconciles := s.reconciles.modify t fun r => { r with since := s.clock, pc := pc } }
  | .fail t => do
      let r ← s.reconciles.get? t
      guard (!r.pc.isDone)
      some { s with reconciles := s.reconciles.modify t fun r => { r with pc := .failed } }

/-- A system with empty tables. -/
def State.initial (clock : Timestamp) : State := ⟨⟨.empty, .empty⟩, clock, .empty⟩

/-! ## What is to hold -/

/-- The tokens of a tenant's stored events of a month. -/
def Db.recorded (db : Db) (tenantId month : Int) : Int := db.tokensWhere tenantId fun m => m == month

/-- Every counter is the sum of its events. -/
def Consistent (db : Db) : Prop := ∀ tenantId month, db.rollup tenantId month = db.recorded tenantId month

/-- No reconciliation is in flight. -/
def Quiet (s : State) : Prop := ∀ x ∈ s.reconciles.rows, x.2.pc.isDone = true

instance : DecidablePred Quiet := fun s => inferInstanceAs (Decidable (∀ x ∈ s.reconciles.rows, _))

/-- The inserts of interest: token counts are not negative, and the event is not later than the insert. -/
def Act.Admissible : Act → Prop
  | .insert event began => (∀ n ∈ event.promptTokens, 0 ≤ n) ∧ (∀ n ∈ event.completionTokens, 0 ≤ n) ∧
      event.createdAt ≤ began
  | _ => True

/-- Between the two reads of a reconciliation. -/
def Pc.isReading : Pc → Bool
  | .rollup _ => true
  | _ => false

/-- An event with tokens is inserted in the month it is of, and not between the two reads of a
    reconciliation of that tenant and month; and the month does not change during the reads. -/
def Act.Undisturbed (s : State) : Act → Prop
  | .insert event began => 0 < event.tokens → utcMonth event.createdAt = utcMonth began ∧
      ∀ x ∈ s.reconciles.rows, x.2.pc.isReading = true → x.2.tenantId = event.tenantId →
        utcMonth x.2.since ≠ utcMonth event.createdAt
  | .run t began => ∀ r ∈ s.reconciles.get? t,
      (r.pc = .usage → utcMonth began = utcMonth s.clock) ∧
        (r.pc.isReading = true → utcMonth r.since = utcMonth began)
  | _ => True

instance : DecidablePred Act.Admissible
  | .insert _ _ => inferInstanceAs (Decidable (_ ∧ _ ∧ _))
  | .tick _ | .reconcile _ | .run _ _ | .fail _ => isTrue trivial

instance (s : State) : DecidablePred (Act.Undisturbed s)
  | .insert _ _ => inferInstanceAs (Decidable (_ → _ ∧ ∀ x ∈ s.reconciles.rows, _ → _ → _))
  | .run t _ => inferInstanceAs (Decidable (∀ r ∈ s.reconciles.get? t, _ ∧ _))
  | .tick _ | .reconcile _ | .fail _ => isTrue trivial

/-! ## One transaction -/

section Transactions

variable {event : UsageEvent} {now : Timestamp} {db db' : Db} {id : ℕ}

theorem tokensWhere_insert (row : UsageEvent) (tenantId : Int) (p : Int → Bool) (rollups : Keyed (Int × Int) Int) :
    Db.tokensWhere ⟨db.usageEvents.insert row, rollups⟩ tenantId p = db.tokensWhere tenantId p +
      if row.tenantId = tenantId ∧ p (utcMonth row.createdAt) = true then row.tokens else 0 := by
  simp only [Db.tokensWhere, Serial.insert, List.filter_append, List.map_append, List.sum_append]
  split
  next h => simp [h.1, h.2]
  next h => simp [h]

variable (h : insertUsageEvent event now db = some (id, db'))

include h

theorem usageEvents_of_insert : db'.usageEvents = db.usageEvents.insert { event with createdAt := now } := by
  unfold insertUsageEvent at h
  split at h
  · obtain ⟨used, -, h⟩ := bind_eq_some_iff.1 h
    simp only [Option.some.injEq, Prod.mk.injEq] at h
    rw [← h.2]
  · simp only [Option.some.injEq, Prod.mk.injEq] at h
    rw [← h.2]

/-- What an insert adds to the sums: its tokens, in the month of the insert. -/
theorem recorded_of_insert (tenantId month : Int) :
    db'.recorded tenantId month = db.recorded tenantId month +
      if event.tenantId = tenantId ∧ utcMonth now = month then event.tokens else 0 := by
  obtain ⟨usageEvents, rollups⟩ := db'
  obtain rfl : usageEvents = _ := usageEvents_of_insert h
  simp only [Db.recorded, tokensWhere_insert, beq_iff_eq]
  rfl

/-- What an insert adds to the counters: its tokens, in the month of the event. -/
theorem rollup_of_insert (hnonneg : 0 ≤ event.tokens) (tenantId month : Int) :
    db'.rollup tenantId month = db.rollup tenantId month +
      if event.tenantId = tenantId ∧ utcMonth event.createdAt = month then event.tokens else 0 := by
  unfold insertUsageEvent at h
  split at h
  next hpos =>
    obtain ⟨used, hused, h⟩ := bind_eq_some_iff.1 h
    simp only [Option.some.injEq, Prod.mk.injEq] at h
    rw [← h.2, ← eq_of_bigint hused]
    simp only [Db.rollup, Keyed.get?_upsert, Prod.mk.injEq]
    by_cases hkey : event.tenantId = tenantId ∧ utcMonth event.createdAt = month
    · obtain ⟨rfl, rfl⟩ := hkey
      simp
    · rw [if_neg (fun hk => hkey ⟨hk.1.symm, hk.2.symm⟩), if_neg hkey, Int.add_zero]
  next hzero =>
    simp only [Option.some.injEq, Prod.mk.injEq] at h
    have htokens : event.tokens = 0 := by omega
    rw [← h.2, htokens]
    simp [Db.rollup]

/-- An insert keeps counters and sums equal exactly when the event has no tokens or is of the month in
    which it is inserted. -/
theorem consistent_insert_iff (hdb : Consistent db) (hnonneg : 0 ≤ event.tokens) :
    Consistent db' ↔ (0 < event.tokens → utcMonth event.createdAt = utcMonth now) := by
  constructor
  · intro hdb' hpos
    have hmonth := hdb' event.tenantId (utcMonth now)
    rw [rollup_of_insert h hnonneg, recorded_of_insert h, hdb] at hmonth
    by_contra hne
    rw [if_neg fun hk => hne hk.2, if_pos ⟨rfl, rfl⟩] at hmonth
    omega
  · intro hmonth tenantId month
    rw [rollup_of_insert h hnonneg, recorded_of_insert h, hdb]
    rcases Int.lt_or_eq_of_le hnonneg with hpos | hzero
    · rw [hmonth hpos]
    · simp [← hzero]

end Transactions

/-! ## Runs -/

/-- What a step can be. -/
inductive Step (s : State) : Act → State → Prop
  | tick {now : Timestamp} (hnow : s.clock ≤ now) : Step s (.tick now) { s with clock := now }
  | insert {event : UsageEvent} {began : Timestamp} {id : ℕ} {db : Db} (hbegan : began ≤ s.clock)
      (hdb : insertUsageEvent event began s.db = some (id, db)) :
      Step s (.insert event began) { s with db := db }
  | reconcile (tenantId : Int) : Step s (.reconcile tenantId)
      { s with reconciles := s.reconciles.insert ⟨tenantId, s.clock, .usage⟩ }
  | run {t : ℕ} {began : Timestamp} {r : Reconcile} {pc : Pc} {db : Db}
      (hget : s.reconciles.get? t = some r) (hbegan : began ≤ s.clock)
      (hnext : r.next began s.db = some (pc, db)) :
      Step s (.run t began) { s with
        db := db
        reconciles := s.reconciles.modify t fun r => { r with since := s.clock, pc := pc } }
  | fail {t : ℕ} {r : Reconcile} (hget : s.reconciles.get? t = some r) : Step s (.fail t)
      { s with reconciles := s.reconciles.modify t fun r => { r with pc := .failed } }

variable {s s' : State} {r : Reconcile} {began clock : Timestamp} {pc : Pc} {t : ℕ} {db : Db}

theorem step_inv {a : Act} (h : step s a = some s') : Step s a s' := by
  cases a with
  | tick now =>
    simp only [step] at h
    split at h
    next hnow => exact Option.some.inj h ▸ .tick hnow
    next => cases h
  | insert event began =>
    obtain ⟨_, hbegan, h⟩ := bind_eq_some_iff.1 h
    obtain ⟨r, hdb, h⟩ := bind_eq_some_iff.1 h
    exact Option.some.inj h ▸ .insert (by simpa using hbegan) hdb
  | reconcile tenantId => exact Option.some.inj h ▸ .reconcile tenantId
  | run t began =>
    obtain ⟨r, hget, h⟩ := bind_eq_some_iff.1 h
    obtain ⟨_, hbegan, h⟩ := bind_eq_some_iff.1 h
    obtain ⟨m, hnext, h⟩ := bind_eq_some_iff.1 h
    have hbegan : r.since ≤ began ∧ began ≤ s.clock := by simpa using hbegan
    exact Option.some.inj h ▸ .run hget hbegan.2 hnext
  | fail t =>
    obtain ⟨r, hget, h⟩ := bind_eq_some_iff.1 h
    obtain ⟨_, -, h⟩ := bind_eq_some_iff.1 h
    exact Option.some.inj h ▸ .fail hget

/-- What the next transaction of a call can be. -/
inductive Next (r : Reconcile) (began : Timestamp) (db : Db) : Pc → Db → Prop
  | sums {authoritative : Int} (hpc : r.pc = .usage)
      (husage : getTokenUsage r.tenantId began db = some authoritative) :
      Next r began db (.rollup authoritative) db
  | overflows (hpc : r.pc = .usage) : Next r began db .failed db
  | differs {authoritative : Int} (hpc : r.pc = .rollup authoritative)
      (hread : authoritative ≠ getCurrentMonthTokenRollup r.tenantId began db) :
      Next r began db (.correct authoritative) db
  | agrees {authoritative : Int} (hpc : r.pc = .rollup authoritative)
      (hread : authoritative = getCurrentMonthTokenRollup r.tenantId began db) :
      Next r began db (.returned authoritative) db
  | overwrites {authoritative : Int} (hpc : r.pc = .correct authoritative) :
      Next r began db (.returned authoritative) (overwriteRollup r.tenantId authoritative began db)

theorem next_inv {db' : Db} (h : r.next began db = some (pc, db')) : Next r began db pc db' := by
  unfold Reconcile.next at h
  split at h
  next hpc =>
    split at h <;> cases h
    next authoritative husage => exact .sums hpc husage
    next => exact .overflows hpc
  next authoritative hpc =>
    split at h <;> cases h
    next hread => exact .differs hpc hread
    next hread => exact .agrees hpc (not_not.1 hread)
  next authoritative hpc =>
    cases h
    exact .overwrites hpc
  all_goals cases h

/-- A call that has read the sum has read the counter of the month in which it did so. -/
def Reconcile.Agrees (db : Db) (r : Reconcile) : Prop :=
  match r.pc with
  | .rollup authoritative => authoritative = db.rollup r.tenantId (utcMonth r.since)
  | .correct _ => False
  | _ => True

/-- What holds along an undisturbed run. -/
structure Settled (s : State) : Prop where
  consistent : Consistent s.db
  /-- no stored event is of the future -/
  past : ∀ x ∈ s.db.usageEvents.rows, x.2.createdAt ≤ s.clock
  agrees : ∀ t r, s.reconciles.get? t = some r → r.Agrees s.db

/-- With no event of the future, the open window holds the events of the current month. -/
theorem getTokenUsage_eq {now : Timestamp} {tenantId authoritative : Int}
    (hpast : ∀ x ∈ db.usageEvents.rows, x.2.createdAt ≤ clock) (hmonth : utcMonth now = utcMonth clock)
    (h : getTokenUsage tenantId now db = some authoritative) :
    authoritative = db.recorded tenantId (utcMonth clock) := by
  rw [← eq_of_bigint h, Db.recorded, Db.tokensWhere, Db.tokensWhere, hmonth]
  refine congrArg (fun rows => (List.map _ rows).sum) (List.filter_congr fun x hx => ?_)
  have hle := utcMonth_mono (hpast x hx)
  rw [Bool.eq_iff_iff]
  simp only [Bool.and_eq_true, beq_iff_eq, decide_eq_true_eq]
  constructor
  · rintro ⟨htenant, hge⟩
    exact ⟨htenant, le_antisymm hle hge⟩
  · rintro ⟨htenant, heq⟩
    exact ⟨htenant, heq.ge⟩

/-- A transaction of a call in the month it reads leaves the tables alone, and the call agrees. -/
theorem next_settled (hs : Settled s) (hget : s.reconciles.get? t = some r)
    (hundisturbed : (Act.run t began).Undisturbed s) (hnext : r.next began s.db = some (pc, db)) :
    db = s.db ∧ Reconcile.Agrees s.db { r with since := s.clock, pc := pc } := by
  have hmonths := hundisturbed r hget
  have hagrees := hs.agrees t r hget
  cases next_inv hnext with
  | @sums authoritative hpc husage =>
    refine ⟨rfl, ?_⟩
    show authoritative = s.db.rollup r.tenantId (utcMonth s.clock)
    rw [hs.consistent, getTokenUsage_eq hs.past (hmonths.1 hpc) husage]
  | overflows | agrees => exact ⟨rfl, trivial⟩
  | @differs authoritative hpc hread =>
    -- the second read finds what the first one summed up
    simp only [Reconcile.Agrees, hpc] at hagrees
    have hmonth : utcMonth r.since = utcMonth began := hmonths.2 (by rw [hpc]; rfl)
    rw [getCurrentMonthTokenRollup, ← hmonth] at hread
    exact absurd hagrees hread
  | overwrites hpc => simp only [Reconcile.Agrees, hpc] at hagrees

/-- An insert between no two reads leaves every call in agreement. -/
theorem agrees_insert {event : UsageEvent} {id : ℕ} (hnonneg : 0 ≤ event.tokens)
    (hundisturbed : (Act.insert event began).Undisturbed s)
    (hdb : insertUsageEvent event began s.db = some (id, db)) (hget : s.reconciles.get? t = some r)
    (hagrees : r.Agrees s.db) : r.Agrees db := by
  unfold Reconcile.Agrees at hagrees ⊢
  split
  next authoritative hpc =>
    simp only [hpc] at hagrees
    rw [hagrees, rollup_of_insert hdb hnonneg]
    split
    next hkey =>
      rcases Int.lt_or_eq_of_le hnonneg with hpos | hzero
      · have hrow := (s.reconciles.get?_eq_some_iff t r).1 hget
        have hreading : r.pc.isReading = true := by rw [hpc]; rfl
        have hne := (hundisturbed hpos).2 (t, r) hrow hreading hkey.1.symm
        exact absurd hkey.2.symm hne
      · rw [← hzero, Int.add_zero]
    next => rw [Int.add_zero]
  next authoritative hpc => simp only [hpc] at hagrees
  next => trivial

theorem settled_step {a : Act} (h : Step s a s') (hadmissible : a.Admissible) (hundisturbed : a.Undisturbed s)
    (hs : Settled s) : Settled s' := by
  cases h with
  | tick hnow => exact ⟨hs.consistent, fun x hx => (hs.past x hx).trans hnow, hs.agrees⟩
  | @insert event began id db hbegan hdb =>
    have hgetD : ∀ {tokens : Option Int}, (∀ n, tokens = some n → 0 ≤ n) → 0 ≤ tokens.getD 0 := by
      rintro (_ | n) h
      · exact Int.le_refl 0
      · exact h n rfl
    have hnonneg : 0 ≤ event.tokens := Int.add_nonneg (hgetD hadmissible.1) (hgetD hadmissible.2.1)
    refine ⟨(consistent_insert_iff hdb hs.consistent hnonneg).2 fun hpos => (hundisturbed hpos).1, ?_, ?_⟩
    · intro x hx
      rw [show db.usageEvents = _ from usageEvents_of_insert hdb, Serial.mem_insert] at hx
      rcases hx with hx | rfl
      · exact hs.past x hx
      · exact hbegan
    · exact fun t r hget => agrees_insert hnonneg hundisturbed hdb hget (hs.agrees t r hget)
  | reconcile tenantId =>
    refine ⟨hs.consistent, hs.past, fun t r hget => ?_⟩
    rw [Serial.get?_insert] at hget
    split at hget
    · cases hget
      trivial
    · exact hs.agrees t r hget
  | @run t began r pc db hget hbegan hnext =>
    obtain ⟨rfl, hagrees⟩ := next_settled hs hget hundisturbed hnext
    refine ⟨hs.consistent, hs.past, fun u r' hget' => ?_⟩
    obtain ⟨r₀, hr₀, rfl⟩ := Serial.get?_of_modify hget'
    split
    next hu =>
      subst hu
      cases hget.symm.trans hr₀
      exact hagrees
    next => exact hs.agrees u r₀ hr₀
  | @fail t r hget =>
    refine ⟨hs.consistent, hs.past, fun u r' hget' => ?_⟩
    obtain ⟨r₀, hr₀, rfl⟩ := Serial.get?_of_modify hget'
    split
    · trivial
    · exact hs.agrees u r₀ hr₀

/-- **Rollup consistency.** From tables that agree, in every run whose inserts are of the month in which
    they are made and which disturb no reconciliation between its reads, the counter of every tenant and
    month is the sum of its stored events, in every state. -/
theorem rollup_consistent {s₀ s : State} {es : List (Edge State Act)} (hidle : s₀.reconciles.rows = [])
    (hconsistent : Consistent s₀.db) (hpast : ∀ x ∈ s₀.db.usageEvents.rows, x.2.createdAt ≤ s₀.clock)
    (hrun : Run (Fires step) s₀ es s) (hadmissible : ∀ e ∈ es, e.label.Admissible)
    (hundisturbed : ∀ e ∈ es, e.label.Undisturbed e.src) (tenantId month : Int) :
    s.db.rollup tenantId month = s.db.recorded tenantId month := by
  have h0 : Settled s₀ := ⟨hconsistent, hpast, fun t r hget => absurd hget (by simp [Serial.get?_of_rows_nil hidle])⟩
  have hs := (hrun.edges_where (I := Settled) (C := fun e => e.label.Admissible ∧ e.label.Undisturbed e.src) h0
    (fun e he hC hI => settled_step (step_inv he) hC.1 hC.2 hI)
    fun e he => ⟨hadmissible e he, hundisturbed e he⟩).1
  exact hs.consistent tenantId month

/-- Noon of 15 June 2026. -/
def midJune : Timestamp := 1781524800000000

/-- A call of tenant 1 with 10 prompt and 5 completion tokens. -/
def fifteenTokens (createdAt : Timestamp) : UsageEvent := ⟨1, some 10, some 5, createdAt⟩

theorem rollup_consistent_after_reconcile :
    ∃ es s, Run (Fires step) (.initial midJune) es s ∧
      es.map Edge.label = [.insert (fifteenTokens midJune) midJune, .reconcile 1, .run 1 midJune, .run 1 midJune] ∧
      s.db.rollup 1 (utcMonth midJune) = 15 ∧
      s.db.rollup 1 (utcMonth midJune) = s.db.recorded 1 (utcMonth midJune) := by
  refine exists_run_of_imp (fun es s => (∀ e ∈ es, e.label.Admissible) ∧ (∀ e ∈ es, e.label.Undisturbed e.src) ∧
    s.db.rollup 1 (utcMonth midJune) = 15) (by decide +kernel) ?_
  rintro es s hrun ⟨hadmissible, hundisturbed, hrollup⟩
  exact ⟨hrollup, rollup_consistent rfl (fun _ _ => rfl)
    (fun x hx => absurd hx (by simp [State.initial])) hrun hadmissible hundisturbed 1 _⟩

/-! ## Drift is corrected -/

/-- Where a reconciliation of month `month` stands, whatever the counter was before it. -/
def Reconcile.Corrects (db : Db) (month : Int) (r : Reconcile) : Prop :=
  match r.pc with
  | .rollup authoritative | .correct authoritative => authoritative = db.recorded r.tenantId month
  | .returned authoritative =>
      authoritative = db.recorded r.tenantId month ∧ db.rollup r.tenantId month = authoritative
  | .usage | .failed => True

theorem next_corrects {db' : Db} (since : Timestamp)
    (hpast : ∀ x ∈ db.usageEvents.rows, x.2.createdAt ≤ clock) (hmonth : utcMonth began = utcMonth clock)
    (hr : r.Corrects db (utcMonth clock)) (hnext : r.next began db = some (pc, db')) :
    db'.usageEvents = db.usageEvents ∧
      Reconcile.Corrects db' (utcMonth clock) { r with since := since, pc := pc } := by
  unfold Reconcile.Corrects at hr
  cases next_inv hnext with
  | sums hpc husage => exact ⟨rfl, getTokenUsage_eq hpast hmonth husage⟩
  | overflows => exact ⟨rfl, trivial⟩
  | differs hpc hread =>
    simp only [hpc] at hr
    exact ⟨rfl, hr⟩
  | @agrees authoritative hpc hread =>
    simp only [hpc] at hr
    refine ⟨rfl, hr, ?_⟩
    rw [← hmonth]
    exact hread.symm
  | @overwrites authoritative hpc =>
    simp only [hpc] at hr
    refine ⟨rfl, hr, ?_⟩
    show (overwriteRollup r.tenantId authoritative began db).rollup r.tenantId (utcMonth clock) = authoritative
    rw [← hmonth]
    simp [overwriteRollup, Db.rollup]

/-- A reconciliation whose transactions begin within a month and that runs alone, while time passes, leaves the counter
    of that month equal to the sum, however far it had drifted, and returns the sum. -/
theorem reconcile_corrects {es : List (Edge State Act)} {r' : Reconcile} {authoritative : Int}
    (hget : s.reconciles.get? t = some r) (hpc : r.pc = .usage)
    (hpast : ∀ x ∈ s.db.usageEvents.rows, x.2.createdAt ≤ s.clock) (hrun : Run (Fires step) s es s')
    (halone : ∀ e ∈ es, (∃ now, e.label = .tick now) ∨
      ∃ began, e.label = .run t began ∧ utcMonth began = utcMonth s.clock)
    (hget' : s'.reconciles.get? t = some r') (hret : r'.pc = .returned authoritative) :
    authoritative = s'.db.recorded r'.tenantId (utcMonth s.clock) ∧
      s'.db.rollup r'.tenantId (utcMonth s.clock) = authoritative := by
  have hinv := (hrun.edges_where
    (I := fun u => u.db.usageEvents = s.db.usageEvents ∧
      ∃ r, u.reconciles.get? t = some r ∧ r.Corrects u.db (utcMonth s.clock))
    ⟨rfl, r, hget, by simp [Reconcile.Corrects, hpc]⟩ ?_ halone).1
  · obtain ⟨-, r₁, hr₁, hcorrects⟩ := hinv
    cases hget'.symm.trans hr₁
    simpa only [Reconcile.Corrects, hret] using hcorrects
  · rintro ⟨u, a, v⟩ hstep (⟨now, rfl⟩ | ⟨began, rfl, hmonth⟩) ⟨hevents, r₀, hr₀, hcorrects⟩
    · have hinv : Step u (.tick now) v := step_inv hstep
      cases hinv
      exact ⟨hevents, r₀, hr₀, hcorrects⟩
    · have hinv : Step u (.run t began) v := step_inv hstep
      cases hinv with
      | run hget₁ hbegan hnext =>
        cases hr₀.symm.trans hget₁
        obtain ⟨hkept, hdone⟩ := next_corrects u.clock (by rwa [hevents]) hmonth hcorrects hnext
        refine ⟨hkept.trans hevents, _, ?_, hdone⟩
        rw [Serial.get?_modify, hr₀]
        simp

/-- A stored event that no counter has, and a reconciliation that has just been called. -/
def uncounted : State :=
  ⟨⟨.insert .empty (fifteenTokens midJune), .empty⟩, midJune, .insert .empty ⟨1, midJune, .usage⟩⟩

/-- A second passes between its transactions. -/
theorem reconcile_corrects_uncounted :
    ∃ es s, Run (Fires step) uncounted es s ∧ uncounted.db.rollup 1 (utcMonth midJune) = 0 ∧
      s.db.rollup 1 (utcMonth midJune) = 15 := by
  obtain ⟨es, s, hrun, hlabels, r, hget, hpc⟩ : ∃ es s, Run (Fires step) uncounted es s ∧
      es.map Edge.label = [.run 1 midJune, .tick (midJune + 1000000), .run 1 (midJune + 1000000),
        .run 1 (midJune + 1000000)] ∧
      ∃ r ∈ s.reconciles.get? 1, r.tenantId = 1 ∧ r.pc = .returned 15 := exists_run_of_holds (by decide +kernel)
  have halone : ∀ a ∈ es.map Edge.label, (∃ now, a = .tick now) ∨
      ∃ began, a = .run 1 began ∧ utcMonth began = utcMonth uncounted.clock := by
    rw [hlabels]
    have hmonth : utcMonth (midJune + 1000000) = utcMonth midJune := by decide +kernel
    simp [uncounted, hmonth]
  have h := (reconcile_corrects rfl rfl (by simp [uncounted, Serial.insert, fifteenTokens]) hrun
    (fun e he => halone _ (List.mem_map_of_mem he)) hget hpc.2).2
  exact ⟨es, s, hrun, rfl, hpc.1 ▸ h⟩

/-! ## How the two come apart -/

/-- An event of 15 tokens is inserted between the two reads of a reconciliation. -/
def insertBetweenReads : List Act :=
  [.reconcile 1, .run 1 midJune, .insert (fifteenTokens midJune) midJune, .run 1 midJune, .run 1 midJune]

/-- An event of the last microsecond of June is inserted in July. -/
def insertNextMonth : List Act :=
  [.tick 1782864000000000, .insert (fifteenTokens 1782863999999999) 1782864000000000]

/-- The overwrite takes the tokens of a concurrent insert out of the counter; and an insert after the turn
    of the month counts in a month in which no event is stored. -/
theorem rollup_drifts :
    (∃ es s, Run (Fires step) (.initial midJune) es s ∧ es.map Edge.label = insertBetweenReads ∧
      (∀ a ∈ insertBetweenReads, a.Admissible) ∧ Quiet s ∧
      s.db.rollup 1 (utcMonth midJune) = 0 ∧ s.db.recorded 1 (utcMonth midJune) = 15) ∧
    ∃ es s, Run (Fires step) (.initial midJune) es s ∧ es.map Edge.label = insertNextMonth ∧
      (∀ a ∈ insertNextMonth, a.Admissible) ∧ Quiet s ∧
      s.db.rollup 1 (utcMonth midJune) = 15 ∧ s.db.recorded 1 (utcMonth midJune) = 0 := by
  exact ⟨exists_run_of_holds (by decide +kernel), exists_run_of_holds (by decide +kernel)⟩

end Tagsmaxxing.UsageRollup
