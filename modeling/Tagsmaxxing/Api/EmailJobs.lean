import Tagsmaxxing.Core.Json
import Tagsmaxxing.Pipeline.JobQueue

/-! # Email jobs (`email_jobs.rs`)

An email is enqueued as a `send_email` job whose payload, a JSON text with the recipient, the subject and the rendered
body, stands in the job's `last_error` column. But `last_error` is also where the queue writes why an attempt failed:
`fail` puts the error there, and `requeue_crashed` its own message. So an email whose first delivery fails is retried
with an error text for a payload.

`handed_of_intact` and `handed_of_spoilt` say what a worker makes of the two kinds of column; `email_survives_iff` puts
them together over any number of rounds of the queue. -/

namespace Tagsmaxxing.EmailJobs

open JobQueue

/-! ## The payload -/

inductive EmailKind
  | verification | passwordReset | welcome | invoice | paymentFailed | quotaWarning | ingestFailed | invite
deriving DecidableEq

/-- The `snake_case` name that `serde` writes. -/
def EmailKind.asStr : EmailKind → String
  | .verification => "verification"
  | .passwordReset => "password_reset"
  | .welcome => "welcome"
  | .invoice => "invoice"
  | .paymentFailed => "payment_failed"
  | .quotaWarning => "quota_warning"
  | .ingestFailed => "ingest_failed"
  | .invite => "invite"

/-- What a provider is handed; `recipient` is the source's `to`. -/
structure Email where
  recipient : String
  subject : String
  bodyHtml : String
deriving DecidableEq

/-- The inner object, with the members in the order of their names. -/
def emailJson (e : Email) (kind : EmailKind) : Json :=
  .obj [("body_html", .str e.bodyHtml), ("kind", .str kind.asStr), ("subject", .str e.subject),
    ("to", .str e.recipient)]

def payloadJson (e : Email) (kind : EmailKind) : Json := .obj [("email", emailJson e kind)]

def emailJobPriority : Int32 := -5

/-- The id of the job and the database. The templates are those of
    `render_email`. -/
def enqueueEmailJobViaPool (serde : SerdeJson) (renderEmail : EmailKind → Json → Except String String)
    (tenantId : Int) (recipient subject : String) (kind : EmailKind) (params : Json) (now : Time) (db : Db) :
    Except String (ℕ × Db) :=
  match renderEmail kind params with
  | .error _ => .error "failed to render email template"
  | .ok bodyHtml =>
      let row : JobRow :=
        { tenantId := tenantId, createdBy := none, fileId := none, documentId := none, kind := .sendEmail,
          priority := emailJobPriority, status := .queued, attempts := 0,
          lastError := some (serde.toString (payloadJson ⟨recipient, subject, bodyHtml⟩ kind)), runAfter := now,
          createdAt := now, leaseExpiresAt := none, lockedBy := none }
      .ok (db.jobs.next, { db with jobs := db.jobs.insert row })

/-! ## The worker -/

def emailStr (val : Json) (field : String) : Except String String :=
  match (val.get? field).bind Json.asStr with
  | some s => .ok s
  | none => .error ("missing or invalid '" ++ field ++ "' in email payload")

/-- The three fields of the email, in the order they are read. -/
def readEmail (email : Json) : Except String Email :=
  match emailStr email "to" with
  | .error e => .error e
  | .ok recipient =>
      match emailStr email "subject" with
      | .error e => .error e
      | .ok subject =>
          match emailStr email "body_html" with
          | .error e => .error e
          | .ok bodyHtml => .ok ⟨recipient, subject, bodyHtml⟩

/-- Its result, and what it handed to the provider. -/
def processEmailJob (serde : SerdeJson) (send : Email → Except String Unit) (job : JobRow) :
    Except String Unit × List Email :=
  match serde.fromStr (job.lastError.getD "\x7b\x7d") with
  | .error e => (.error ("invalid email job payload: " ++ e), [])
  | .ok wrapper =>
      match wrapper.get? "email" with
      | none => (.error "missing 'email' key in job payload", [])
      | some email =>
          match readEmail email with
          | .error e => (.error e, [])
          | .ok email =>
              match send email with
              | .ok () => (.ok (), [email])
              | .error e => (.error ("email delivery failed: " ++ e), [email])

/-! ## Rounds of the queue -/

/-- A claim of the job. Before it, others may do anything to the database but touch the job's row. -/
structure Visit (jobId : ℕ) where
  others : Db → Db
  keeps : ∀ db, (others db).jobs.get? jobId = db.jobs.get? jobId
  kinds : List JobKind
  locked : List ℕ
  now : Time

/-- How a round ends that does not deliver: the provider refuses, or the worker is lost and the job's lease
    reaped. -/
inductive Outcome
  | failed (err : String) (now : Time)
  | reaped (now : Time)

/-- The claimed job and the database, if the claim returns the job. -/
def claimJob (q : JobQueue) {jobId : ℕ} (v : Visit jobId) (db : Db) : Option (JobRow × Db) :=
  match q.claimKinds v.kinds v.locked v.now (v.others db) with
  | (db', some (id, job)) => if id = jobId then some (job, db') else none
  | (_, none) => none

/-- Claim, process and fail, or claim and reap. -/
def round (serde : SerdeJson) (q : JobQueue) {jobId : ℕ} (db : Db) (r : Visit jobId × Outcome) : Option Db :=
  match claimJob q r.1 db with
  | none => none
  | some (job, db') =>
      match r.2 with
      | .reaped now => some (requeueCrashed jobId now db')
      | .failed err now =>
          match (processEmailJob serde (fun _ => .error err) job).1 with
          | .ok () => none
          | .error msg =>
              match q.fail jobId msg now db' with
              | .ok (_, db'') => some db''
              | .error _ => none

/-- What the provider is handed in a last round in which it accepts, after the given rounds. -/
def handed (serde : SerdeJson) (q : JobQueue) {jobId : ℕ} (rounds : List (Visit jobId × Outcome))
    (last : Visit jobId) (db : Db) : Option (List Email) :=
  match rounds.foldlM (round serde q) db with
  | none => none
  | some db' => (claimJob q last db').map fun r => (processEmailJob serde (fun _ => .ok ()) r.1).2

/-! ## What a worker makes of the column -/

variable {job : JobRow} {serde : SerdeJson} {jobId : ℕ} {q : JobQueue} {db db' : Db} {kind : EmailKind}

theorem get?_email (e : Email) : (payloadJson e kind).get? "email" = some (emailJson e kind) := rfl

theorem readEmail_emailJson (e : Email) : readEmail (emailJson e kind) = .ok e := rfl

section

variable (send : Email → Except String Unit)

/-- A worker that finds the payload hands the email to the provider. -/
theorem handed_of_intact {e : Email} (hread : serde.ReadsBack (payloadJson e kind))
    (h : job.lastError = some (serde.toString (payloadJson e kind))) : (processEmailJob serde send job).2 = [e] := by
  rw [SerdeJson.ReadsBack] at hread
  simp only [processEmailJob, h, Option.getD_some, hread, get?_email, readEmail_emailJson]
  cases send e <;> rfl

/-- The text is not JSON. -/
def Unreadable (serde : SerdeJson) (s : String) : Prop := ∃ e, serde.fromStr s = .error e

/-- The column holds a text that is not JSON. -/
def Spoilt (serde : SerdeJson) (job : JobRow) : Prop := ∃ s, job.lastError = some s ∧ Unreadable serde s

/-- A worker that finds another text hands nothing over, whatever the provider would have said. -/
theorem handed_of_spoilt (h : Spoilt serde job) : (processEmailJob serde send job).2 = [] := by
  obtain ⟨s, hs, e, herror⟩ := h
  simp only [processEmailJob, hs, Option.getD_some, herror]

end

/-! ## The messages are not JSON -/

section

variable {cs : List Char} {lit msg : String} {c : Char}

/-- A text that starts with the given literal is not JSON if the literal's first letter cannot start one. -/
theorem unreadable_append (hprose : serde.RejectsProse) (hlit : lit.toList = c :: cs) (hc : Json.isStart c = false)
    (s : String) : Unreadable serde (lit ++ s) := by
  have htext : lit ++ s = String.ofList (c :: (cs ++ s.toList)) := by
    rw [← List.cons_append, ← hlit, ← String.toList_append, String.ofList_toList]
  rw [htext]
  exact hprose c _ hc

theorem unreadable_literal (hprose : serde.RejectsProse) (hlit : lit.toList = c :: cs) (hc : Json.isStart c = false) :
    Unreadable serde lit := by
  have h := unreadable_append hprose hlit hc ""
  rwa [String.append_empty] at h

variable (hprose : serde.RejectsProse)
include hprose

theorem unreadable_leaseExpiredError : Unreadable serde leaseExpiredError :=
  unreadable_literal hprose (c := 'l') rfl (by decide)

theorem unreadable_of_emailStr {val : Json} {field : String} (h : emailStr val field = .error msg) :
    Unreadable serde msg := by
  unfold emailStr at h
  split at h
  · cases h
  · simp only [Except.error.injEq] at h
    rw [← h, String.append_assoc]
    exact unreadable_append hprose (c := 'm') rfl (by decide) _

theorem unreadable_of_readEmail {email : Json} (h : readEmail email = .error msg) : Unreadable serde msg := by
  unfold readEmail at h
  split at h
  next e he =>
    cases h
    exact unreadable_of_emailStr hprose he
  · split at h
    next e he =>
      cases h
      exact unreadable_of_emailStr hprose he
    · split at h <;> cases h
      next e he => exact unreadable_of_emailStr hprose he

theorem unreadable_of_processEmailJob {send : Email → Except String Unit}
    (h : (processEmailJob serde send job).1 = .error msg) : Unreadable serde msg := by
  unfold processEmailJob at h
  split at h
  · simp only [Except.error.injEq] at h
    rw [← h]
    exact unreadable_append hprose (c := 'i') rfl (by decide) _
  · split at h
    · simp only [Except.error.injEq] at h
      rw [← h]
      exact unreadable_literal hprose (c := 'm') rfl (by decide)
    · split at h
      next e he =>
        simp only [Except.error.injEq] at h
        exact unreadable_of_readEmail hprose (h ▸ he)
      · split at h
        · cases h
        · simp only [Except.error.injEq] at h
          rw [← h]
          exact unreadable_append hprose (c := 'e') rfl (by decide) _

end

/-! ## Through the queue -/

/-- A claim returns the row as it stands, with its column, and leaves it running. -/
theorem claimJob_spec {v : Visit jobId} (h : claimJob q v db = some (job, db')) :
    (∃ a, db.jobs.get? jobId = some a ∧ job.lastError = a.lastError) ∧
      db'.jobs.get? jobId = some job ∧ job.status = .running := by
  unfold claimJob at h
  split at h
  next db₁ id job₁ hclaim =>
    split at h
    · next hid =>
      cases h
      subst hid
      have hsome := congrArg Prod.snd hclaim
      obtain ⟨a, hget, herror⟩ := claimKinds_lastError hsome
      obtain ⟨_, _, _, hrun, _, hafter⟩ := claimKinds_some hsome
      rw [hclaim] at hafter
      refine ⟨⟨a, ?_, herror⟩, ?_, hrun⟩
      · rw [← v.keeps]
        exact hget
      · rw [hafter, if_pos rfl]
    · cases h
  · cases h

/-- After a round that does not deliver, the column holds a message. -/
theorem spoilt_of_round (hprose : serde.RejectsProse) {r : Visit jobId × Outcome}
    (h : round serde q db r = some db') : ∃ b, db'.jobs.get? jobId = some b ∧ Spoilt serde b := by
  unfold round at h
  split at h
  · cases h
  next job db₁ hclaim =>
    obtain ⟨-, hget, hrun⟩ := claimJob_spec hclaim
    split at h
    · next now _ =>
      -- the worker was lost: the reaper writes its own message
      cases h
      obtain ⟨b, hb, herror⟩ := requeueCrashed_lastError hget hrun now
      exact ⟨b, hb, leaseExpiredError, herror, unreadable_leaseExpiredError hprose⟩
    · split at h
      · cases h
      · next msg hmsg =>
        split at h <;> cases h
        rename_i st db₂ hfail
        obtain ⟨b, hb, herror⟩ := failInner_lastError hfail
        exact ⟨b, hb, msg, herror, unreadable_of_processEmailJob hprose hmsg⟩

theorem spoilt_of_rounds (hprose : serde.RejectsProse) {rounds : List (Visit jobId × Outcome)} (hne : rounds ≠ []) :
    ∀ {db db' : Db}, rounds.foldlM (round serde q) db = some db' →
      ∃ b, db'.jobs.get? jobId = some b ∧ Spoilt serde b := by
  induction rounds with
  | nil => exact absurd rfl hne
  | cons r rounds ih =>
    intro db db' h
    rw [List.foldlM_cons, Option.bind_eq_bind, Option.bind_eq_some_iff] at h
    obtain ⟨db₁, hround, hrest⟩ := h
    by_cases hnil : rounds = []
    · subst hnil
      cases hrest
      exact spoilt_of_round hprose hround
    · exact ih hnil hrest

/-- The row that `enqueue_email_job_via_pool` inserts holds the payload. -/
theorem enqueued_spec {renderEmail : EmailKind → Json → Except String String} {tenantId : Int}
    {recipient subject bodyHtml : String} {params : Json} {now : Time}
    (hbody : renderEmail kind params = .ok bodyHtml)
    (henqueue :
      enqueueEmailJobViaPool serde renderEmail tenantId recipient subject kind params now db = .ok (jobId, db')) :
    ∃ a, db'.jobs.get? jobId = some a ∧
      a.lastError = some (serde.toString (payloadJson ⟨recipient, subject, bodyHtml⟩ kind)) := by
  simp only [enqueueEmailJobViaPool, hbody, Except.ok.injEq, Prod.mk.injEq] at henqueue
  obtain ⟨rfl, rfl⟩ := henqueue
  exact ⟨_, Serial.get?_insert_next _ _, rfl⟩

/-- The email that was enqueued is what the accepting provider is handed, exactly when no failed delivery
    and no reaped lease came before. -/
theorem email_survives_iff {renderEmail : EmailKind → Json → Except String String} {tenantId : Int}
    {recipient subject bodyHtml : String} {kind : EmailKind} {params : Json} {now : Time} {db db' : Db}
    {jobId : ℕ} {serde : SerdeJson} {q : JobQueue} {rounds : List (Visit jobId × Outcome)}
    {last : Visit jobId} {sent : List Email} (hbody : renderEmail kind params = .ok bodyHtml)
    (hread : serde.ReadsBack (payloadJson ⟨recipient, subject, bodyHtml⟩ kind)) (hprose : serde.RejectsProse)
    (henqueue :
      enqueueEmailJobViaPool serde renderEmail tenantId recipient subject kind params now db = .ok (jobId, db'))
    (hsent : handed serde q rounds last db' = some sent) :
    sent = [⟨recipient, subject, bodyHtml⟩] ↔ rounds = [] := by
  unfold handed at hsent
  split at hsent
  · cases hsent
  next db₁ hrounds =>
    rw [Option.map_eq_some_iff] at hsent
    obtain ⟨⟨job, db₂⟩, hclaim, rfl⟩ := hsent
    obtain ⟨⟨a, hget, hkept⟩, -, -⟩ := claimJob_spec hclaim
    constructor
    · intro hsame
      by_contra hne
      obtain ⟨b, hb, s, hs, hnone⟩ := spoilt_of_rounds hprose hne hrounds
      cases hget.symm.trans hb
      have hnothing := handed_of_spoilt (fun _ => .ok ()) ⟨s, hkept.trans hs, hnone⟩
      cases hsame.symm.trans hnothing
    · rintro rfl
      cases hrounds
      obtain ⟨b, hb, hpayload⟩ := enqueued_spec hbody henqueue
      cases hget.symm.trans hb
      exact handed_of_intact _ hread (hkept.trans hpayload)

/-- The welcome email of the examples. -/
def welcome : Email := ⟨"user@example.com", "Welcome", "<p>Welcome</p>"⟩

def welcomeText : String :=
  "\x7b\"email\":\x7b\"body_html\":\"<p>Welcome</p>\",\"kind\":\"welcome\",\"subject\":\"Welcome\"," ++
    "\"to\":\"user@example.com\"\x7d\x7d"

/-- A `serde_json` that knows the text of the welcome email. -/
def welcomeSerde : SerdeJson where
  toString _ := welcomeText
  fromStr s :=
    if s = welcomeText then .ok (payloadJson welcome .welcome) else .error "expected value at line 1 column 1"

theorem welcomeSerde_rejectsProse : welcomeSerde.RejectsProse := by
  intro c cs hc
  refine ⟨_, if_neg ?_⟩
  intro htext
  have hhead : some c = some '\x7b' := by
    have h := congrArg (fun s => s.toList.head?) htext
    rwa [String.toList_ofList] at h
  cases hhead
  cases hc

/-- A welcome email, enqueued in an empty database. -/
def enqueueWelcome : Except String (ℕ × Db) :=
  enqueueEmailJobViaPool welcomeSerde (fun _ _ => .ok welcome.bodyHtml) 1 welcome.recipient welcome.subject .welcome
    .null 0 ⟨.empty, .empty, .empty⟩

/-- A claim of any kind at the given time, with nobody else about. -/
def quietVisit (jobId : ℕ) (now : Time) : Visit jobId := ⟨id, fun _ => rfl, [], [], now⟩

/-- What the provider is handed at time 100, after the given rounds. -/
def handedWelcome (rounds : (jobId : ℕ) → List (Visit jobId × Outcome)) : Option (List Email) :=
  match enqueueWelcome with
  | .error _ => none
  | .ok (jobId, db) => handed welcomeSerde ⟨1000, 3, 60, "worker"⟩ (rounds jobId) (quietVisit jobId 100) db

theorem first_attempt_hands_welcome :
    (handedWelcome fun _ => []).isSome ∧ ∀ sent, handedWelcome (fun _ => []) = some sent → sent = [welcome] := by
  refine ⟨by decide +kernel, ?_⟩
  intro sent hsent
  obtain ⟨jobId, db, henqueue⟩ : ∃ jobId db, enqueueWelcome = .ok (jobId, db) := ⟨_, _, rfl⟩
  simp only [handedWelcome, henqueue] at hsent
  exact (email_survives_iff (by rfl) (by rfl) welcomeSerde_rejectsProse henqueue hsent).2 rfl

/-- The provider refuses the first time and accepts the second: the second time it is handed nothing. -/
theorem retry_hands_nothing :
    handedWelcome (fun jobId => [(quietVisit jobId 1, .failed "connection refused" 1)]) = some [] := by
  decide +kernel

end Tagsmaxxing.EmailJobs
