import Mathlib.Data.Prod.Lex
import Tagsmaxxing.Pipeline.JobQueue

/-! # Job aging and the order of claims (`job_aging.rs`, `claim_kinds`)

`effective_priority` is what the queue documents: every full hour of age adds one to the priority of a job. The
claim does not call it; its `ORDER BY` computes the boost in SQL, from an age with a fractional part. For a job
that was not created in the future the two agree (`sqlPriority_eq`), so a claim takes a job that no other
eligible job outranks, and a job that has waited long enough goes before every younger one up to a given
priority. -/

namespace Tagsmaxxing

/-- `effective_priority`. An `i32` and a quotient of an `i64` by 3600 have a sum within an `i64`. -/
def effectivePriority (priority : Int32) (ageSeconds : Int) : Int :=
  let effectiveAge := max ageSeconds 0
  let boost := effectiveAge.tdiv agingStepSecs.num
  priority.toInt + boost

namespace JobQueue

/-! ## The `ORDER BY` of the claim -/

variable {now : Time}

/-- The boost that SQL computes from the exact age is the one of the whole seconds. -/
theorem sqlPriority_eq {j : JobRow} (hcreated : j.createdAt ≤ now) :
    sqlPriority now j = effectivePriority j.priority ⌊now - j.createdAt⌋ := by
  have hage : 0 ≤ ⌊now - j.createdAt⌋ := Int.floor_nonneg.2 (sub_nonneg.2 hcreated)
  have hstep : agingStepSecs = ((3600 : ℤ) : ℚ) := rfl
  have hfloor : ⌊(now - j.createdAt) / agingStepSecs⌋ = ⌊now - j.createdAt⌋ / 3600 := by
    rw [hstep]
    exact Int.floor_div_cast_of_nonneg (by decide) _
  rw [sqlPriority, effectivePriority, max_eq_left hage, hfloor]
  simp only [agingStepSecs, Rat.num_ofNat, Int.tdiv_eq_ediv_of_nonneg hage]

section

variable (now : Time)

theorem claimBefore_eq_true_iff (a b : ℕ × JobRow) :
    claimBefore now a b = true ↔ sqlPriority now b.2 < sqlPriority now a.2 ∨
      sqlPriority now a.2 = sqlPriority now b.2 ∧
        (a.2.runAfter < b.2.runAfter ∨ a.2.runAfter = b.2.runAfter ∧ a.1 < b.1) := by
  simp [claimBefore]

theorem claimBefore_irrefl (a : ℕ × JobRow) : claimBefore now a a = false := by
  rw [Bool.eq_false_iff, ne_eq, claimBefore_eq_true_iff]
  simp

/-- The key whose order is the order of the claim. -/
def claimKey (now : Time) (a : ℕ × JobRow) : ℤᵒᵈ ×ₗ Time ×ₗ ℕ :=
  toLex (OrderDual.toDual (sqlPriority now a.2), toLex (a.2.runAfter, a.1))

theorem claimBefore_iff_key (a b : ℕ × JobRow) : claimBefore now a b = true ↔ claimKey now a < claimKey now b := by
  simp [claimBefore_eq_true_iff, claimKey, Prod.Lex.toLex_lt_toLex]

theorem claimBefore_trans (a b c : ℕ × JobRow) (hab : claimBefore now a b = true) (hbc : claimBefore now b c = true) :
    claimBefore now a c = true := by
  rw [claimBefore_iff_key] at hab hbc ⊢
  exact hab.trans hbc

end

variable {a b : ℕ × JobRow}

theorem claimBefore_total (hne : a.1 ≠ b.1) (hab : claimBefore now a b = false) : claimBefore now b a = true := by
  rw [Bool.eq_false_iff, ne_eq, claimBefore_iff_key, not_lt] at hab
  rw [claimBefore_iff_key]
  exact hab.lt_of_ne fun heq => hne (congrArg (fun k => (ofLex (ofLex k).2).2) heq.symm)

/-- A claim takes the first eligible row in the order of the claim, if there is one, and changes no other. -/
theorem claimKinds_first (q : JobQueue) (kinds : List JobKind) (now : Time) (db : Db) :
    ((q.claimKinds kinds [] now db).2 = none ∧
        ∀ id j, db.jobs.get? id = some j → claimable kinds [] now id j = false) ∨
      ∃ id j c, (q.claimKinds kinds [] now db).2 = some (id, c) ∧
        (c.priority = j.priority ∧ c.createdAt = j.createdAt) ∧
        (db.jobs.get? id = some j ∧ claimable kinds [] now id j = true ∧
          ∀ id' j', db.jobs.get? id' = some j' → claimable kinds [] now id' j' = true →
            claimBefore now (id', j') (id, j) = false) ∧
        ∀ i, i ≠ id → (q.claimKinds kinds [] now db).1.jobs.get? i = db.jobs.get? i := by
  have hmem : ∀ id j, db.jobs.get? id = some j → claimable kinds [] now id j = true →
      (id, j) ∈ db.jobs.rows.filter fun r => claimable kinds [] now r.1 r.2 := by
    intro id j hget hclaim
    exact List.mem_filter.2 ⟨(db.jobs.get?_eq_some_iff id j).1 hget, hclaim⟩
  unfold claimKinds claimSelect
  rcases orderLimitOne_spec (claimBefore_irrefl now) (claimBefore_trans now)
      (db.jobs.rows.filter fun r => claimable kinds [] now r.1 r.2)
    with ⟨hnil, hnone⟩ | ⟨⟨id, j⟩, hj, hsome, hbest⟩
  · rw [hnone]
    refine .inl ⟨rfl, fun id j hget => Bool.eq_false_iff.2 fun hclaim => ?_⟩
    have hin := hmem id j hget hclaim
    rw [hnil] at hin
    cases hin
  · obtain ⟨hrow, hclaim⟩ := List.mem_filter.1 hj
    rw [hsome]
    refine .inr ⟨id, j, _, rfl, ⟨rfl, rfl⟩, ⟨(db.jobs.get?_eq_some_iff id j).2 hrow, hclaim, ?_⟩, fun i hi => ?_⟩
    · intro id' j' hget hclaim'
      exact hbest (id', j') (hmem id' j' hget hclaim')
    · simp [hi]

/-! ## A job that has waited longer -/

/-- A job goes before a younger one of at most priority `p` once its age makes up for the difference and one
    step more. The step more pays for the fractions that the boosts cut off. -/
theorem claimBefore_of_waited {p : Int} (hb : b.2.priority.toInt ≤ p)
    (hage : a.2.createdAt + ((p - a.2.priority.toInt + 1 : Int) : ℚ) * agingStepSecs ≤ b.2.createdAt) :
    claimBefore now a b = true := by
  have hstep : (0 : ℚ) < agingStepSecs := by decide
  have hquot : (now - b.2.createdAt) / agingStepSecs + ((p - a.2.priority.toInt + 1 : Int) : ℚ) ≤
      (now - a.2.createdAt) / agingStepSecs := by
    rw [div_add' _ _ _ hstep.ne']
    exact div_le_div_of_nonneg_right (by linarith) hstep.le
  have hfloor : ⌊(now - b.2.createdAt) / agingStepSecs⌋ + (p - a.2.priority.toInt + 1) ≤
      ⌊(now - a.2.createdAt) / agingStepSecs⌋ := by
    rw [← Int.floor_add_intCast]
    exact Int.floor_le_floor hquot
  rw [claimBefore_eq_true_iff]
  left
  unfold sqlPriority
  omega

/-! ## A series of claims -/

/-- A call of `claim_kinds`. -/
structure ClaimCall where
  queue : JobQueue
  kinds : List JobKind
  now : Time

/-- What each of a series of claims returns, no row being locked by anybody else. -/
def claimSeries (db : Db) : List ClaimCall → List (Option (ℕ × JobRow))
  | [] => []
  | call :: calls =>
      let (db', job) := call.queue.claimKinds call.kinds [] call.now db
      job :: claimSeries db' calls

/-- As long as a job is eligible and has not been claimed, none of those it has waited longer than is. -/
theorem claimSeries_waited {p : Int} {a : ℕ} {ja : JobRow} (calls : List ClaimCall) (db : Db)
    (ha : db.jobs.get? a = some ja)
    (heligible : ∀ call ∈ calls, claimable call.kinds [] call.now a ja = true) (k b : ℕ) (c : JobRow)
    (hk : (claimSeries db calls)[k]? = some (some (b, c))) (hne : b ≠ a) (hc : c.priority.toInt ≤ p)
    (hage : ja.createdAt + ((p - ja.priority.toInt + 1 : Int) : ℚ) * agingStepSecs ≤ c.createdAt) :
    ∃ i < k, ∃ c', (claimSeries db calls)[i]? = some (some (a, c')) := by
  induction calls generalizing db k with
  | nil => simp [claimSeries] at hk
  | cons call calls ih =>
    have hnow := heligible call List.mem_cons_self
    have hlater := fun call' h => heligible call' (List.mem_cons_of_mem call h)
    rcases claimKinds_first call.queue call.kinds call.now db
      with ⟨-, hnone⟩ | ⟨id, j, c', hret, ⟨hprio, hcreated⟩, ⟨-, -, hfirst⟩, hother⟩
    · exact absurd hnow (by simp [hnone a ja ha])
    simp only [claimSeries] at hk ⊢
    rw [hret] at hk ⊢
    by_cases hid : id = a
    · -- the job itself is claimed now; the other one, whenever it is, comes later
      subst hid
      cases k with
      | zero =>
        simp only [List.getElem?_cons_zero, Option.some.injEq, Prod.mk.injEq] at hk
        exact absurd hk.1.symm hne
      | succ k => exact ⟨0, k.succ_pos, c', rfl⟩
    · cases k with
      | zero =>
        -- the first in the order is not one that the job goes before
        simp only [List.getElem?_cons_zero, Option.some.injEq, Prod.mk.injEq] at hk
        obtain ⟨rfl, rfl⟩ := hk
        rw [hprio] at hc
        rw [hcreated] at hage
        have hbefore : claimBefore call.now (a, ja) (id, j) = true := claimBefore_of_waited hc hage
        rw [hfirst a ja ha hnow] at hbefore
        cases hbefore
      | succ k =>
        rw [List.getElem?_cons_succ] at hk
        obtain ⟨i, hi, c'', hget⟩ := ih _ ((hother a (Ne.symm hid)).trans ha) hlater k hk
        exact ⟨i + 1, Nat.succ_lt_succ hi, c'', hget⟩

/-! ## The order of claims -/

/-- The documented order: effective priority of the age in whole seconds, then `run_after`, then `id`. -/
def Outranks (now : Time) (a b : ℕ × JobRow) : Prop :=
  let effective (j : JobRow) := effectivePriority j.priority ⌊now - j.createdAt⌋
  effective b.2 < effective a.2 ∨ effective a.2 = effective b.2 ∧
    (a.2.runAfter < b.2.runAfter ∨ a.2.runAfter = b.2.runAfter ∧ a.1 < b.1)

theorem outranks_of_claimBefore (ha : a.2.createdAt ≤ now) (hb : b.2.createdAt ≤ now) (h : claimBefore now a b = true) :
    Outranks now a b := by
  rwa [claimBefore_eq_true_iff, sqlPriority_eq ha, sqlPriority_eq hb] at h

/-- A claim takes an eligible job that outranks every other one, if there is any; and of a job that was created
    `p - priority + 1` aging steps before another one of at most priority `p`, a series of claims for which it is
    eligible takes it before that one. -/
theorem claimKinds_by_age (q : JobQueue) (kinds : List JobKind) (now : Time) (db : Db)
    (hcreated : ∀ id j, db.jobs.get? id = some j → claimable kinds [] now id j = true → j.createdAt ≤ now) :
    ((q.claimKinds kinds [] now db).2 = none ↔
      ∀ id j, db.jobs.get? id = some j → claimable kinds [] now id j = false) ∧
    (∀ id c, (q.claimKinds kinds [] now db).2 = some (id, c) →
      ∃ j, db.jobs.get? id = some j ∧ claimable kinds [] now id j = true ∧
        ∀ id' j', db.jobs.get? id' = some j' → claimable kinds [] now id' j' = true → id' ≠ id →
          Outranks now (id, j) (id', j')) ∧
    (∀ (p : Int) (a : ℕ) (ja : JobRow), db.jobs.get? a = some ja → ja.priority.toInt ≤ p →
      ∀ calls : List ClaimCall, (∀ call ∈ calls, claimable call.kinds [] call.now a ja = true) →
      ∀ (k b : ℕ) (c : JobRow), (claimSeries db calls)[k]? = some (some (b, c)) → b ≠ a →
        c.priority.toInt ≤ p →
        ja.createdAt + ((p - ja.priority.toInt + 1 : Int) : ℚ) * agingStepSecs ≤ c.createdAt →
        ∃ i < k, ∃ c', (claimSeries db calls)[i]? = some (some (a, c'))) := by
  refine ⟨?_, ?_, ?_⟩
  · rcases claimKinds_first q kinds now db with ⟨hret, hnone⟩ | ⟨id, j, c, hret, -, ⟨hj, hclaim, -⟩, -⟩
    · exact iff_of_true hret hnone
    · refine iff_of_false (by simp [hret]) fun hnone => ?_
      rw [hnone id j hj] at hclaim
      cases hclaim
  · intro id c hret
    rcases claimKinds_first q kinds now db with ⟨hnone, -⟩ | ⟨id', j, c', hret', -, ⟨hj, hclaim, hfirst⟩, -⟩
    · cases hret.symm.trans hnone
    cases hret.symm.trans hret'
    refine ⟨j, hj, hclaim, fun i' j' hj' hclaim' hne => ?_⟩
    have hbefore := claimBefore_total (a := (i', j')) (b := (id, j)) hne (hfirst i' j' hj' hclaim')
    exact outranks_of_claimBefore (hcreated id j hj hclaim) (hcreated i' j' hj' hclaim') hbefore
  · intro p a ja ha _ calls heligible k b c hk hne hc hage
    exact claimSeries_waited calls db ha heligible k b c hk hne hc hage

/-- A job of priority 0 that is two hours old and one of priority 1 that is new. -/
def agedDb : Db :=
  enqueue 1 none none none .ingest 1 7200
    (enqueue 1 none none none .ingest 0 0 ⟨Serial.empty, Serial.empty, Serial.empty⟩)

/-- Two claims of one worker on them. -/
def agedCalls : List ClaimCall := List.replicate 2 ⟨⟨1000, 3, 60, "worker"⟩, [], 7200⟩

/-- The new job once it is claimed. -/
def agedClaimed : JobRow :=
  { tenantId := 1, createdBy := none, fileId := none, documentId := none, kind := .ingest, priority := 1,
    status := .running, attempts := 0, lastError := none, runAfter := 7200, createdAt := 7200,
    leaseExpiresAt := some 7260, lockedBy := some "worker" }

theorem claimKinds_by_age_aged :
    (claimSeries agedDb agedCalls)[1]? = some (some (2, agedClaimed)) ∧
      ∃ i < 1, ∃ c, (claimSeries agedDb agedCalls)[i]? = some (some (1, c)) := by
  have hsecond : (claimSeries agedDb agedCalls)[1]? = some (some (2, agedClaimed)) := by decide +kernel
  refine ⟨hsecond, ?_⟩
  refine (claimKinds_by_age ⟨1000, 3, 60, "worker"⟩ [] 7200 agedDb ?_).2.2 1 1 _ rfl (by decide) agedCalls
    ?_ 1 2 agedClaimed hsecond (by decide) (by decide) (by decide +kernel)
  · intro id j hget _
    have hrows : ∀ r ∈ agedDb.jobs.rows, r.2.createdAt ≤ 7200 := by decide +kernel
    exact hrows (id, j) ((Serial.get?_eq_some_iff _ id j).1 hget)
  · intro call hcall
    rw [List.eq_of_mem_replicate hcall]
    decide +kernel

end JobQueue

end Tagsmaxxing
