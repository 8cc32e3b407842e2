import Tagsmaxxing.Lib.Keyed
import Tagsmaxxing.Lib.Statements

/-! # Retagging a document (`process_retag_job`)

A retag job reads the locked tags of a document, deletes its unlocked tags from the model, asks the tagger for new
ones, inserts those and inserts the locked ones again. The three writes are transactions of their own, and both inserts
overwrite the source and the lock of a tag that is already there. So a job that stops between them can leave a user's
tag as an unlocked tag of the model, for the next attempt to delete.

`get?_attempt` says what one attempt, however it ends, leaves under each tag; `retag_keeps_iff` reads off when that is
what was there before. -/

namespace Tagsmaxxing.Retag

open Statements

/-! ## The table -/

inductive TagSource
  | llm | user
deriving DecidableEq

/-- A row of `document_tags` without its key. -/
structure DocumentTag where
  source : TagSource
  locked : Bool
deriving DecidableEq

/-- `document_tags`, under its primary key `(document_id, tag_id)`. -/
abbrev DocumentTags := Keyed (Int × Int) DocumentTag

def getLockedDocumentTags (documentId : Int) : Prog DocumentTags (List Int) :=
  query "failed to fetch locked tags: failed to fetch locked document tags" fun t =>
    (t.keysWhere fun k r => k.1 == documentId && r.locked).map Prod.snd

/-- The rows `clear_llm_document_tags` deletes. -/
def cleared (documentId : Int) (k : Int × Int) (r : DocumentTag) : Bool :=
  k.1 == documentId && r.source == .llm && !r.locked

/-- `clear_llm_document_tags`; it returns the number of rows deleted. -/
def clearLlmDocumentTags (documentId : Int) : Prog DocumentTags ℕ :=
  stmt "failed to clear llm tags: failed to clear llm document tags" fun t =>
    ((t.keysWhere (cleared documentId)).length, t.deleteWhere (cleared documentId))

/-- User tags are locked, and a tag that is there is overwritten. PostgreSQL
    rejects an `INSERT` that would update one row twice. -/
def insertDocumentTags (documentId : Int) (tagIds : List Int) (source : TagSource) (err : String) :
    Prog DocumentTags Unit :=
  if tagIds.isEmpty then pure ()
  else if tagIds.Nodup then
    execute err fun t => t.upsertAll (tagIds.map (documentId, ·)) ⟨source, source == .user⟩
  else throw err

/-! ## The job -/

/-- What the world does in one attempt: the answer of the tagger, the ids of the canonicalizer, and
    where the database connection breaks. -/
structure Attempt where
  tagger : Except String (List String)
  canonicalize : List String → Except String (List Int)
  fault : Option Fault

/-- `.map_err(|e| format!("…: {e}"))?`. -/
def orThrow {α : Type} (context : String) : Except String α → Prog DocumentTags α
  | .ok a => pure a
  | .error e => throw (context ++ e)

def processRetagJob (documentId : Int) (a : Attempt) : Prog DocumentTags (List Int) := do
  let lockedIds ← getLockedDocumentTags documentId
  let _ ← clearLlmDocumentTags documentId
  let tags ← orThrow "tagger failed: " a.tagger
  let newTagIds ← orThrow "canonicalizer failed: " (a.canonicalize tags)
  if !newTagIds.isEmpty then
    insertDocumentTags documentId newTagIds .llm "failed to insert llm tags: failed to insert document_tag rows"
  if !lockedIds.isEmpty then
    insertDocumentTags documentId lockedIds .user
      "failed to re-insert locked tags: failed to insert document_tag rows"
  pure (newTagIds.foldl (fun all id => if all.contains id then all else all ++ [id]) lockedIds)

/-- The table after an attempt, however it ended. -/
def attempt (documentId : Int) (db : DocumentTags) (a : Attempt) : DocumentTags :=
  finalDb ((processRetagJob documentId a).run ⟨db, a.fault⟩)

/-- The table after a job and its retries. -/
def attempts (documentId : Int) (db : DocumentTags) (as : List Attempt) : DocumentTags :=
  as.foldl (attempt documentId) db

/-! ## What an attempt writes -/

/-- The ids for the new tags, if the tagger and the canonicalizer answer. -/
def Attempt.newTagIds? (a : Attempt) : Option (List Int) :=
  (a.tagger.bind a.canonicalize).toOption

/-- The ids that the insert of the model's tags writes: the job's third statement. -/
def Attempt.inserted (a : Attempt) : List Int :=
  match a.newTagIds? with
  | some ids => if ids.Nodup ∧ takes a.fault 2 = true then ids else []
  | none => []

/-- Whether the job gets so far as to insert the locked tags again: its third statement if there is no
    new tag, its fourth otherwise. -/
def Attempt.relocks (a : Attempt) : Bool :=
  match a.newTagIds? with
  | some [] => takes a.fault 2
  | some ids => decide ids.Nodup && takes a.fault 3
  | none => false

/-- The tag is locked on the document. -/
def lockedOn (documentId : Int) (db : DocumentTags) (t : Int) : Bool :=
  (db.get? (documentId, t)).any DocumentTag.locked

/-- What the two inserts leave under a tag where there was `old`. -/
def rewritten (a : Attempt) (locked : Bool) (t : Int) (old : Option DocumentTag) : Option DocumentTag :=
  if a.relocks ∧ locked then some ⟨.user, true⟩
  else if t ∈ a.inserted then some ⟨.llm, false⟩ else old

section Attempt

variable (documentId : Int) (db : DocumentTags)

/-- The locked tags, as the first statement lists them. -/
def lockedIds : List Int :=
  (db.keysWhere fun k r => k.1 == documentId && r.locked).map Prod.snd

theorem mem_lockedIds (t : Int) : t ∈ lockedIds documentId db ↔ lockedOn documentId db t = true := by
  simp only [lockedIds, List.mem_map, Keyed.mem_keysWhere, lockedOn, Option.any_eq_true, Bool.and_eq_true, beq_iff_eq]
  constructor
  · rintro ⟨⟨d, t⟩, ⟨r, hget, rfl, hlocked⟩, rfl⟩
    exact ⟨r, hget, hlocked⟩
  · rintro ⟨r, hget, hlocked⟩
    exact ⟨(documentId, t), ⟨r, hget, rfl, hlocked⟩, rfl⟩

theorem nodup_lockedIds : (lockedIds documentId db).Nodup := by
  unfold lockedIds Keyed.keysWhere
  rw [List.map_map]
  refine List.Nodup.map_on ?_ (db.nodup.of_map.filter _)
  rintro ⟨⟨d, t⟩, r⟩ h ⟨⟨d', t'⟩, r'⟩ h' rfl
  simp only [List.mem_filter, Bool.and_eq_true, beq_iff_eq] at h h'
  obtain ⟨hmem, rfl, -⟩ := h
  obtain ⟨hmem', hd, -⟩ := h'
  subst hd
  have heq : some r = some r' := ((db.get?_eq_some_iff _ _).2 hmem).symm.trans ((db.get?_eq_some_iff _ _).2 hmem')
  cases heq
  rfl

/-- The insert of a duplicate-free list, and what follows it. -/
theorem finalDb_insertDocumentTags_bind {β : Type} {tagIds : List Int} (hne : tagIds ≠ [])
    (hnodup : tagIds.Nodup) (source : TagSource) (err : String) (k : Unit → Prog DocumentTags β)
    (fault : Option Fault) :
    finalDb ((insertDocumentTags documentId tagIds source err >>= k).run ⟨db, fault⟩) =
      let db' := db.upsertAll (tagIds.map (documentId, ·)) ⟨source, source == .user⟩
      if passes fault then finalDb ((k ()).run ⟨db', rest fault⟩)
      else if takes fault 0 then db' else db := by
  unfold insertDocumentTags
  rw [if_neg (by simpa using hne), if_pos hnodup, execute, finalDb_stmt_bind]

variable {locked : List Int}

/-- The re-insert of the locked tags, which is the last statement. -/
theorem get?_relock (hnodup : locked.Nodup) (err : String) (ids : List Int) (fault : Option Fault) (t : Int) :
    (finalDb ((do
      if !locked.isEmpty then insertDocumentTags documentId locked .user err
      pure ids : Prog DocumentTags (List Int)).run ⟨db, fault⟩)).get? (documentId, t) =
      if takes fault 0 = true ∧ t ∈ locked then some ⟨.user, true⟩ else db.get? (documentId, t) := by
  by_cases hne : locked = []
  · subst hne
    simp [finalDb, EStateM.run, pure, EStateM.pure]
  · have hcond : (!locked.isEmpty) = true := by simpa using hne
    simp only [hcond, if_true]
    rw [finalDb_insertDocumentTags_bind documentId db hne hnodup]
    by_cases hpass : passes fault = true
    · rw [if_pos hpass, takes_zero_of_passes hpass]
      simp [finalDb, EStateM.run, pure, EStateM.pure]
    · rw [if_neg hpass]
      by_cases htakes : takes fault 0 = true <;> simp [htakes]

theorem get?_inserts (hnodup : locked.Nodup) (err err' : String) (ids all : List Int) (fault : Option Fault) (t : Int) :
    (finalDb ((do
      if !ids.isEmpty then insertDocumentTags documentId ids .llm err
      if !locked.isEmpty then insertDocumentTags documentId locked .user err'
      pure all : Prog DocumentTags (List Int)).run ⟨db, fault⟩)).get? (documentId, t) =
      if (ids = [] ∧ takes fault 0 = true ∨ ids ≠ [] ∧ ids.Nodup ∧ takes fault 1 = true) ∧ t ∈ locked then
        some ⟨.user, true⟩
      else if (ids.Nodup ∧ takes fault 0 = true) ∧ t ∈ ids then some ⟨.llm, false⟩
      else db.get? (documentId, t) := by
  by_cases hne : ids = []
  · subst hne
    refine (get?_relock documentId db hnodup err' all fault t).trans ?_
    simp
  · have hcond : (!ids.isEmpty) = true := by simpa using hne
    simp only [hcond, if_true]
    have hllm : (TagSource.llm == TagSource.user) = false := by decide
    by_cases hids : ids.Nodup
    · rw [finalDb_insertDocumentTags_bind documentId db hne hids, hllm]
      by_cases hpass : passes fault = true
      · rw [if_pos hpass]
        refine (get?_relock documentId _ hnodup err' all (rest fault) t).trans ?_
        rw [takes_rest hpass]
        simp [hne, hids, takes_zero_of_passes hpass]
      · rw [if_neg hpass]
        by_cases htakes : takes fault 0 = true <;>
          simp [htakes, hne, hids, takes_succ_of_not_passes hpass]
    · -- PostgreSQL rejects the insert, and the job ends
      have hthrow : insertDocumentTags documentId ids .llm err = throw err := by
        unfold insertDocumentTags
        rw [if_neg (by simpa using hne), if_neg hids]
      rw [hthrow]
      simp only [hne, hids, false_and, and_false, or_self, if_false]
      rfl

variable {a : Attempt}

theorem rewritten_of_stopped (h : ∀ n, takes a.fault (n + 2) = false) (locked : Bool) (t : Int)
    (old : Option DocumentTag) : rewritten a locked t old = old := by
  have hinserted : a.inserted = [] := by
    unfold Attempt.inserted
    split <;> simp [h 0]
  have hrelocks : a.relocks = false := by
    unfold Attempt.relocks
    split <;> simp [h 0, h 1]
  simp [rewritten, hinserted, hrelocks]

theorem rewritten_of_no_answer (h : a.newTagIds? = none) (locked : Bool) (t : Int) (old : Option DocumentTag) :
    rewritten a locked t old = old := by
  simp [rewritten, Attempt.inserted, Attempt.relocks, h]

theorem rewritten_of_answer {ids : List Int} (h : a.newTagIds? = some ids) (locked : Bool) (t : Int)
    (old : Option DocumentTag) : rewritten a locked t old =
      if (ids = [] ∧ takes a.fault 2 = true ∨ ids ≠ [] ∧ ids.Nodup ∧ takes a.fault 3 = true) ∧ locked then
        some ⟨.user, true⟩
      else if (ids.Nodup ∧ takes a.fault 2 = true) ∧ t ∈ ids then some ⟨.llm, false⟩ else old := by
  have hrelocks : a.relocks = true ↔
      (ids = [] ∧ takes a.fault 2 = true ∨ ids ≠ [] ∧ ids.Nodup ∧ takes a.fault 3 = true) := by
    cases ids <;> simp [Attempt.relocks, h]
  have hinserted : t ∈ a.inserted ↔ (ids.Nodup ∧ takes a.fault 2 = true) ∧ t ∈ ids := by
    by_cases hcond : ids.Nodup ∧ takes a.fault 2 = true <;> simp [Attempt.inserted, h, hcond]
  simp only [rewritten, hrelocks, hinserted]

/-- **What an attempt leaves under a tag of the document**, however it ends. -/
theorem get?_attempt (a : Attempt) (t : Int) :
    (attempt documentId db a).get? (documentId, t) =
      rewritten a (lockedOn documentId db t) t (if takes a.fault 1 then
        (db.get? (documentId, t)).filter fun r => !cleared documentId (documentId, t) r
      else db.get? (documentId, t)) := by
  unfold attempt processRetagJob getLockedDocumentTags query
  rw [finalDb_stmt_bind]
  by_cases hfirst : passes a.fault = true
  · rw [if_pos hfirst]
    unfold clearLlmDocumentTags
    rw [finalDb_stmt_bind, takes_rest hfirst]
    by_cases hsecond : passes (rest a.fault) = true
    · -- the tagger is asked
      have hclears : takes a.fault 1 = true := by
        rw [← takes_rest hfirst]
        exact takes_zero_of_passes hsecond
      have hlater : ∀ n, takes (rest (rest a.fault)) n = takes a.fault (n + 2) := by
        intro n
        rw [takes_rest hsecond, takes_rest hfirst]
      rw [if_pos hsecond, if_pos hclears, ← Keyed.get?_deleteWhere]
      cases htagger : a.tagger with
      | error e =>
        rw [rewritten_of_no_answer (by simp [Attempt.newTagIds?, htagger, Except.bind, Except.toOption])]
        rfl
      | ok tags =>
        cases hcanon : a.canonicalize tags with
        | error e =>
          rw [rewritten_of_no_answer (by simp [Attempt.newTagIds?, htagger, hcanon, Except.bind, Except.toOption])]
          simp only [orThrow, pure_bind, hcanon]
          rfl
        | ok ids =>
          have hids : a.newTagIds? = some ids := by
            simp [Attempt.newTagIds?, htagger, hcanon, Except.bind, Except.toOption]
          simp only [orThrow, pure_bind, hcanon]
          refine (get?_inserts documentId _ (nodup_lockedIds documentId db) _ _ ids _ _ t).trans ?_
          rw [rewritten_of_answer hids]
          simp only [hlater, mem_lockedIds]
    · -- the connection breaks at the delete
      have hstopped : ∀ n, takes a.fault (n + 2) = false := by
        intro n
        rw [← takes_rest hfirst]
        exact takes_succ_of_not_passes hsecond n
      rw [if_neg hsecond, rewritten_of_stopped hstopped, ← Keyed.get?_deleteWhere]
      split <;> rfl
  · -- the connection breaks at the first query
    rw [if_neg hfirst, rewritten_of_stopped fun n => takes_succ_of_not_passes hfirst (n + 1),
      takes_succ_of_not_passes hfirst 0]
    simp

end Attempt

/-! ## Tags that must survive -/

/-- Locked, or assigned by a user. -/
def DocumentTag.Protected (r : DocumentTag) : Prop := r.locked = true ∨ r.source = .user

/-- Every protected tag of the document is still there, with its source and its lock. -/
def Keeps (documentId : Int) (db db' : DocumentTags) : Prop :=
  ∀ t r, db.get? (documentId, t) = some r → r.Protected → db'.get? (documentId, t) = some r

/-- The document has the tags it had. -/
def SameTags (documentId : Int) (db db' : DocumentTags) : Prop :=
  ∀ t, db'.get? (documentId, t) = db.get? (documentId, t)

/-- The attempt fails in the tagger: the two statements before it went through. -/
def Attempt.FailsInTagger (a : Attempt) : Prop :=
  a.tagger.toOption = none ∧ passes a.fault = true ∧ passes (rest a.fault) = true

/-- The attempt keeps the protected tags, and leaves all of them alone if the tagger fails. -/
structure Respects (documentId : Int) (db : DocumentTags) (a : Attempt) : Prop where
  keeps : Keeps documentId db (attempt documentId db a)
  tagger : a.FailsInTagger → SameTags documentId db (attempt documentId db a)

/-- The condition on the tags before the attempt, the answers and the fault. -/
structure Harmless (documentId : Int) (db : DocumentTags) (a : Attempt) : Prop where
  /-- If the locked tags are inserted again, they are all the user's. -/
  relocked : a.relocks = true → ∀ t r, db.get? (documentId, t) = some r → r.locked = true →
    r.source = .user
  /-- Of the protected tags, the model's answer that is inserted names only locked ones, and those are
      inserted again. -/
  inserted : ∀ t r, db.get? (documentId, t) = some r → r.Protected → t ∈ a.inserted →
    r.locked = true ∧ a.relocks = true
  /-- If the tagger fails, there was no tag to delete. -/
  tagger : a.FailsInTagger → ∀ t r, db.get? (documentId, t) = some r → r.Protected

section Respects

variable {documentId : Int} {db : DocumentTags} {a : Attempt} {t : Int} {r : DocumentTag}

theorem cleared_eq_false_iff : cleared documentId (documentId, t) r = false ↔ r.Protected := by
  obtain ⟨source, locked⟩ := r
  cases source <;> cases locked <;> simp [cleared, DocumentTag.Protected]

/-- Under a protected tag, only the inserts can change something. -/
theorem get?_attempt_of_protected (hget : db.get? (documentId, t) = some r) (hprot : r.Protected) :
    (attempt documentId db a).get? (documentId, t) = rewritten a r.locked t (some r) := by
  have hlocked : lockedOn documentId db t = r.locked := by simp [lockedOn, hget]
  rw [get?_attempt, hlocked, hget]
  simp [Option.filter, cleared_eq_false_iff.2 hprot]

/-- The row survives the inserts exactly if they do not touch it, or write it back as it was. -/
theorem rewritten_eq_self_iff (hprot : r.Protected) :
    rewritten a r.locked t (some r) = some r ↔
      (a.relocks = true → r.locked = true → r.source = .user) ∧
        (t ∈ a.inserted → r.locked = true ∧ a.relocks = true) := by
  obtain ⟨source, locked⟩ := r
  unfold rewritten
  by_cases hrelock : a.relocks = true ∧ locked = true
  · obtain ⟨hrelocks, rfl⟩ := hrelock
    cases source <;> simp [hrelocks]
  · rw [if_neg hrelock]
    by_cases hmem : t ∈ a.inserted
    · -- the model's row is not protected
      rw [if_pos hmem]
      constructor
      · rintro ⟨⟩
        exact absurd hprot (by simp [DocumentTag.Protected])
      · intro h
        exact absurd ⟨(h.2 hmem).2, (h.2 hmem).1⟩ hrelock
    · rw [if_neg hmem]
      refine ⟨fun _ => ⟨fun h₁ h₂ => absurd ⟨h₁, h₂⟩ hrelock, fun h => absurd h hmem⟩, fun _ => ?_⟩
      rfl

theorem keeps_iff : Keeps documentId db (attempt documentId db a) ↔
    ∀ t r, db.get? (documentId, t) = some r → r.Protected →
      (a.relocks = true → r.locked = true → r.source = .user) ∧
        (t ∈ a.inserted → r.locked = true ∧ a.relocks = true) := by
  refine forall₄_congr fun t r hget hprot => ?_
  rw [get?_attempt_of_protected hget hprot, rewritten_eq_self_iff hprot]

/-- An attempt that fails in the tagger has deleted the unprotected tags, and nothing else. -/
theorem sameTags_iff (hfails : a.FailsInTagger) : SameTags documentId db (attempt documentId db a) ↔
    ∀ t r, db.get? (documentId, t) = some r → r.Protected := by
  obtain ⟨htagger, hfirst, hsecond⟩ := hfails
  have hnone : a.newTagIds? = none := by
    cases ha : a.tagger with
    | ok tags => simp [ha, Except.toOption] at htagger
    | error e => simp [Attempt.newTagIds?, ha, Except.bind, Except.toOption]
  have hclears : takes a.fault 1 = true := by
    rw [← takes_rest hfirst]
    exact takes_zero_of_passes hsecond
  have hget : ∀ t, (attempt documentId db a).get? (documentId, t) =
      (db.get? (documentId, t)).filter fun r => !cleared documentId (documentId, t) r := by
    intro t
    rw [get?_attempt, rewritten_of_no_answer hnone, if_pos hclears]
  constructor
  · intro h t r hr
    have hsame := (hget t).symm.trans (h t)
    rw [hr, Option.filter_eq_some_iff] at hsame
    exact cleared_eq_false_iff.1 (by simpa using hsame.2)
  · intro h t
    rw [hget]
    cases hr : db.get? (documentId, t) with
    | none => rfl
    | some r => simp [Option.filter, cleared_eq_false_iff.2 (h t r hr)]

/-- **One attempt** respects the tags exactly if it is harmless. -/
theorem respects_iff : Respects documentId db a ↔ Harmless documentId db a := by
  constructor
  · rintro ⟨hkeeps, htagger⟩
    have hrows := keeps_iff.1 hkeeps
    refine ⟨fun hrelocks t r hget hlocked => ?_, fun t r hget hprot => (hrows t r hget hprot).2,
      fun hfails => (sameTags_iff hfails).1 (htagger hfails)⟩
    exact (hrows t r hget (.inl hlocked)).1 hrelocks hlocked
  · rintro ⟨hrelocked, hinserted, htagger⟩
    refine ⟨keeps_iff.2 fun t r hget hprot => ⟨fun hrelocks => hrelocked hrelocks t r hget, ?_⟩,
      fun hfails => (sameTags_iff hfails).2 (htagger hfails)⟩
    exact hinserted t r hget hprot

end Respects

/-! ## A job and its retries -/

/-- Every attempt is harmless on the tags it finds. -/
def AllHarmless (documentId : Int) : DocumentTags → List Attempt → Prop
  | _, [] => True
  | db, a :: as => Harmless documentId db a ∧ AllHarmless documentId (attempt documentId db a) as

theorem keeps_attempts {documentId : Int} {db : DocumentTags} {as : List Attempt}
    (h : AllHarmless documentId db as) : Keeps documentId db (attempts documentId db as) := by
  induction as generalizing db with
  | nil => exact fun t r hget _ => hget
  | cons a as ih =>
    obtain ⟨ha, has⟩ := h
    intro t r hget hprot
    have hkept := (respects_iff.2 ha).keeps t r hget hprot
    exact ih has t r hkept hprot

/-- **Retagging.** An attempt keeps every locked or user tag as it was, and leaves the tag set alone if
    the tagger fails, exactly if it is harmless; and a job whose attempts are all harmless on the tags
    they find keeps the tags that were protected before the first. -/
theorem retag_keeps_iff (documentId : Int) :
    (∀ db a, Respects documentId db a ↔ Harmless documentId db a) ∧
      ∀ db as, AllHarmless documentId db as → Keeps documentId db (attempts documentId db as) :=
  ⟨fun _ _ => respects_iff, fun _ _ => keeps_attempts⟩

/-! ## A locked tag that the model also proposes -/

/-- Document 1 has the user's locked tag 5 and the model's tag 6. -/
def taggedTwice : DocumentTags :=
  (Keyed.empty.upsert (1, 5) ⟨.user, true⟩).upsert (1, 6) ⟨.llm, false⟩

/-- The tagger proposes tag 5, and the connection breaks before the locked tags are inserted again. -/
def stopsBeforeRelock : Attempt := ⟨.ok ["invoice"], fun _ => .ok [5], some ⟨3, false⟩⟩

/-- The tagger is down. -/
def taggerDown : Attempt := ⟨.error "tag service unavailable", fun _ => .ok [], none⟩

/-- The tagger proposes nothing. -/
def proposesNothing : Attempt := ⟨.ok [], fun _ => .ok [], none⟩

theorem proposesNothing_keeps_taggedTwice :
    Keeps 1 taggedTwice (attempts 1 taggedTwice [proposesNothing, proposesNothing]) := by
  have hharmless : ∀ db : DocumentTags, (∀ t r, db.get? (1, t) = some r → r.locked = true →
      r.source = .user) → Harmless 1 db proposesNothing := by
    intro db hdb
    refine ⟨fun _ => hdb, fun t r _ _ hmem => ?_, fun hfails => ?_⟩
    · exact absurd hmem (by simp [Attempt.inserted, Attempt.newTagIds?, proposesNothing, Except.bind, Except.toOption])
    · exact absurd hfails.1 (by simp [proposesNothing, Except.toOption])
  have hsource : ∀ db : DocumentTags, db.rows.all (fun x => !x.2.locked || x.2.source == .user) = true →
      ∀ t r, db.get? (1, t) = some r → r.locked = true → r.source = .user := by
    intro db hdb t r hget hlocked
    have hrow := List.all_eq_true.1 hdb _ ((db.get?_eq_some_iff _ _).1 hget)
    simpa [hlocked] using hrow
  have hfirst := hharmless taggedTwice (hsource _ (by decide +kernel))
  have hsecond := hharmless (attempt 1 taggedTwice proposesNothing) (hsource _ (by decide +kernel))
  exact (retag_keeps_iff 1).2 _ _ ⟨hfirst, hsecond, trivial⟩

/-- The retry deletes the user's locked tag, and a tagger that is down costs the model's tag. -/
theorem retry_loses_locked_tag :
    taggedTwice.get? (1, 5) = some ⟨.user, true⟩ ∧
      (attempts 1 taggedTwice [stopsBeforeRelock]).get? (1, 5) = some ⟨.llm, false⟩ ∧
      (attempts 1 taggedTwice [stopsBeforeRelock, proposesNothing]).get? (1, 5) = none ∧
      taggedTwice.get? (1, 6) = some ⟨.llm, false⟩ ∧
      (attempts 1 taggedTwice [taggerDown]).get? (1, 6) = none := by
  decide +kernel

end Tagsmaxxing.Retag
