import Mathlib.Algebra.Order.Ring.Nat
import Tagsmaxxing.Lib.Exec

/-! # Streaming multipart uploads (`multipart_stream.rs`)

`feed` collects bytes in a buffer and uploads a part whenever the buffer holds a whole one; `finish` uploads what is
left and completes the upload. A part is tried `max_retries + 1` times. What the backend answers is a parameter, and a
put that fails leaves nothing on the server.

`Streams` is what holds between two calls: the accepted parts are whole, and they and the buffer make up the bytes fed
so far. -/

namespace Tagsmaxxing.MultipartStream

open List

/-! ## The session -/

/-- `MultipartUploadConfig`, without the threshold below which nobody streams. -/
structure MultipartUploadConfig where
  partSizeBytes : ℕ
  maxRetries : UInt32

structure PartProgress where
  partIndex : UInt64
  bytesSofar : UInt64
  totalBytes : UInt64
deriving DecidableEq

/-- What the backend answers to the given attempt of the given part, and to `complete`: an error, or
    nothing. -/
structure Backend where
  putPart : ℕ → ℕ → Option String
  complete : Option String

/-- What `complete` returns. -/
def Backend.completion (b : Backend) : Exec Unit :=
  match b.complete with
  | none => .ok ()
  | some e => .error e

/-- The upload on the server. -/
structure Server where
  parts : List (List UInt8)
  completed : Bool
  aborts : ℕ

/-- `StreamingMultipartUpload`. `progress` is what was sent to `progress_tx`, if there is one. -/
structure StreamingMultipartUpload where
  ops : Option Server
  config : MultipartUploadConfig
  buf : List UInt8
  partCount : UInt64
  bytesSofar : UInt64
  totalBytes : UInt64
  progress : Option (List PartProgress)
  finished : Bool

namespace StreamingMultipartUpload

/-- `StreamingMultipartUpload::new`, with or without a `progress_tx`. -/
def new (config : MultipartUploadConfig) (totalBytes : UInt64) (progressTx : Bool) :
    StreamingMultipartUpload where
  ops := some ⟨[], false, 0⟩
  config := config
  buf := []
  partCount := 0
  bytesSofar := 0
  totalBytes := totalBytes
  progress := if progressTx then some [] else none
  finished := false

/-- The server has taken a part: count it and report it. -/
def accept (u : StreamingMultipartUpload) (server : Server) (payload : List UInt8) : StreamingMultipartUpload :=
  let bytesSofar := u.bytesSofar + UInt64.ofNat payload.length
  { u with
    ops := some { server with parts := server.parts ++ [payload] }
    bytesSofar := bytesSofar
    partCount := u.partCount + 1
    progress := u.progress.map (· ++ [⟨u.partCount, bytesSofar, u.totalBytes⟩]) }

/-- What an abort leaves. -/
def aborted (u : StreamingMultipartUpload) (server : Server) : StreamingMultipartUpload :=
  { u with finished := true, ops := some { server with aborts := server.aborts + 1 } }

/-- The loop of `upload_one_part` with `left` attempts to go, and the abort after the last. -/
def uploadAttempts (b : Backend) (payload : List UInt8) (u : StreamingMultipartUpload) :
    (left attempt : ℕ) → (lastErr : Option String) → Exec Unit × StreamingMultipartUpload
  | 0, _, lastErr =>
      (.error (lastErr.getD "part upload failed with no error"),
        { u with
          finished := true
          ops := u.ops.map fun server => { server with aborts := server.aborts + 1 } })
  | left + 1, attempt, _ =>
      match u.ops with
      | none => (.error "multipart upload aborted — no ops available for part upload", u)
      | some server =>
          match b.putPart server.parts.length attempt with
          | none => (.ok (), u.accept server payload)
          | some e => uploadAttempts b payload u left (attempt + 1) (some e)

def uploadOnePart (b : Backend) (payload : List UInt8) (u : StreamingMultipartUpload) :
    Exec Unit × StreamingMultipartUpload :=
  uploadAttempts b payload u (u.config.maxRetries.toNat + 1) 0 none

/-- The loop of `feed`; `none` if it is still running when the fuel is spent. -/
def feedLoop (b : Backend) : ℕ → StreamingMultipartUpload → Option (Exec Unit × StreamingMultipartUpload)
  | 0, _ => none
  | fuel + 1, u =>
      if u.config.partSizeBytes ≤ u.buf.length then
        let partBody := u.buf.take u.config.partSizeBytes
        match uploadOnePart b partBody { u with buf := u.buf.drop u.config.partSizeBytes } with
        | (.ok (), u') => feedLoop b fuel u'
        | r => some r
      else some (.ok (), u)

/-- `feed`. With parts of size 0 its loop has no end. -/
def feed (b : Backend) (chunk : List UInt8) (u : StreamingMultipartUpload) :
    Option (Exec Unit × StreamingMultipartUpload) :=
  if u.finished then some (.panicked, u)
  else if chunk = [] then some (.ok (), u)
  else feedLoop b (u.buf.length + chunk.length + 1) { u with buf := u.buf ++ chunk }

/-- The end of `finish`. -/
def completeUpload (b : Backend) (u : StreamingMultipartUpload) : Exec Unit × StreamingMultipartUpload :=
  match u.ops with
  | none => (.ok (), u)
  | some server =>
      match b.complete with
      | none => (b.completion, { u with ops := some { server with completed := true } })
      | some _ => (b.completion, u)

def finish (b : Backend) (u : StreamingMultipartUpload) : Exec Unit × StreamingMultipartUpload :=
  if u.finished then (.panicked, u)
  else
    let u := { u with finished := true }
    if u.buf = [] then completeUpload b u
    else
      match uploadOnePart b u.buf { u with buf := [] } with
      | (.ok (), u') => completeUpload b u'
      | r => r

/-- A caller that feeds chunk after chunk, up to the first error. -/
def feedAll (b : Backend) : List (List UInt8) → StreamingMultipartUpload → Option (Exec Unit × StreamingMultipartUpload)
  | [], u => some (.ok (), u)
  | chunk :: chunks, u =>
      match feed b chunk u with
      | some (.ok (), u') => feedAll b chunks u'
      | r => r

/-- The caller that then finishes. -/
def uploadAll (b : Backend) (chunks : List (List UInt8)) (u : StreamingMultipartUpload) :
    Option (Exec Unit × StreamingMultipartUpload) :=
  match feedAll b chunks u with
  | some (.ok (), u') => some (finish b u')
  | r => r

/-! ## One part -/

/-- The backend takes the part within the attempts that it is given. -/
def Accepts (b : Backend) (config : MultipartUploadConfig) (part : ℕ) : Prop :=
  ∃ attempt ≤ config.maxRetries.toNat, b.putPart part attempt = none

variable {b : Backend} {payload : List UInt8} {u : StreamingMultipartUpload} {server : Server} {total : UInt64}
  {progressTx : Bool}

theorem uploadAttempts_of_accepts (hops : u.ops = some server)
    {k : ℕ} (hk : b.putPart server.parts.length k = none) :
    ∀ (left attempt : ℕ) (lastErr : Option String), attempt ≤ k → k < attempt + left →
      uploadAttempts b payload u left attempt lastErr = (.ok (), u.accept server payload) := by
  intro left
  induction left with
  | zero =>
    intro attempt lastErr hle hlt
    omega
  | succ left ih =>
    intro attempt lastErr hle hlt
    simp only [uploadAttempts, hops]
    split
    · rfl
    next e he =>
      -- this attempt fails, so it is not the one that succeeds
      have hne : attempt ≠ k := by
        rintro rfl
        cases hk.symm.trans he
      exact ih (attempt + 1) (some e) (by omega) (by omega)

theorem uploadAttempts_of_not_accepts (hops : u.ops = some server) :
    ∀ (left attempt : ℕ) (lastErr : Option String),
      (∀ k, attempt ≤ k → k < attempt + left → b.putPart server.parts.length k ≠ none) →
      ∃ e, uploadAttempts b payload u left attempt lastErr = (.error e, u.aborted server) := by
  intro left
  induction left with
  | zero =>
    intro attempt lastErr _
    exact ⟨_, by rw [uploadAttempts, hops]; rfl⟩
  | succ left ih =>
    intro attempt lastErr hall
    simp only [uploadAttempts, hops]
    split
    next hnone => exact absurd hnone (hall attempt (Nat.le_refl _) (by omega))
    next e _ => exact ih (attempt + 1) (some e) fun k hle hlt => hall k (by omega) (by omega)

/-- A part is uploaded if the backend takes it in time; otherwise the upload is aborted. -/
theorem uploadOnePart_spec (b : Backend) (payload : List UInt8) (hops : u.ops = some server) :
    (Accepts b u.config server.parts.length ∧ uploadOnePart b payload u = (.ok (), u.accept server payload)) ∨
      (¬Accepts b u.config server.parts.length ∧
        ∃ e, uploadOnePart b payload u = (.error e, u.aborted server)) := by
  by_cases h : Accepts b u.config server.parts.length
  · obtain ⟨k, hle, hk⟩ := h
    exact .inl ⟨⟨k, hle, hk⟩, uploadAttempts_of_accepts hops hk _ 0 none (Nat.zero_le k) (by omega)⟩
  · refine .inr ⟨h, uploadAttempts_of_not_accepts hops _ 0 none ?_⟩
    intro k _ hlt hk
    exact h ⟨k, by omega, hk⟩

/-! ## Progress reports -/

/-- The reports of a list of parts: the index of each and the bytes up to and with it. -/
def events (totalBytes : UInt64) (parts : List (List UInt8)) : List PartProgress :=
  (List.range parts.length).map fun i =>
    ⟨UInt64.ofNat i, UInt64.ofNat ((parts.take (i + 1)).map List.length).sum, totalBytes⟩

theorem events_append (totalBytes : UInt64) (parts : List (List UInt8)) (payload : List UInt8) :
    events totalBytes (parts ++ [payload]) = events totalBytes parts ++
      [⟨UInt64.ofNat parts.length,
        UInt64.ofNat (parts.map length).sum + UInt64.ofNat payload.length, totalBytes⟩] := by
  have hlen : (parts ++ [payload]).length = parts.length + 1 := by simp
  have hold : ∀ i ∈ range parts.length, ((parts ++ [payload]).take (i + 1)) = parts.take (i + 1) := by
    intro i hi
    rw [mem_range] at hi
    exact take_append_of_le_length hi
  have hnew : (parts ++ [payload]).take (parts.length + 1) = parts ++ [payload] := by
    rw [← hlen, take_length]
  rw [events, hlen, range_succ, map_append, map_singleton, hnew, events]
  congr 1
  · apply map_congr_left
    intro i hi
    rw [hold i hi]
  · simp [UInt64.ofNat_add]

/-- The counters and the reports are those of the parts on the server. -/
structure Reports (total : UInt64) (progressTx : Bool) (u : StreamingMultipartUpload) (server : Server) :
    Prop where
  ops : u.ops = some server
  totalBytes : u.totalBytes = total
  partCount : u.partCount = UInt64.ofNat server.parts.length
  bytesSofar : u.bytesSofar = UInt64.ofNat (server.parts.map List.length).sum
  progress : u.progress = if progressTx then some (events total server.parts) else none

/-- They do not depend on the buffer, nor on whether the session is finished. -/
theorem Reports.rebuffer (h : Reports total progressTx u server) (buf : List UInt8) (finished : Bool) :
    Reports total progressTx { u with buf := buf, finished := finished } server :=
  ⟨h.ops, h.totalBytes, h.partCount, h.bytesSofar, h.progress⟩

theorem Reports.accept (h : Reports total progressTx u server) (payload : List UInt8) :
    Reports total progressTx (u.accept server payload) { server with parts := server.parts ++ [payload] } where
  ops := rfl
  totalBytes := h.totalBytes
  partCount := by
    simp [StreamingMultipartUpload.accept, h.partCount, UInt64.ofNat_add]
  bytesSofar := by
    simp [StreamingMultipartUpload.accept, h.bytesSofar, UInt64.ofNat_add]
  progress := by
    simp only [StreamingMultipartUpload.accept, h.progress, h.partCount, h.bytesSofar, h.totalBytes, events_append]
    cases progressTx <;> rfl

/-! ## Between two calls -/

/-- The accepted parts are whole, and with the buffer they are the bytes fed so far. -/
structure Streams (config : MultipartUploadConfig) (total : UInt64) (progressTx : Bool) (fed : List UInt8)
    (u : StreamingMultipartUpload) (server : Server) : Prop where
  reports : Reports total progressTx u server
  configured : u.config = config
  running : u.finished = false
  whole : ∀ part ∈ server.parts, part.length = config.partSizeBytes
  split : server.parts.flatten ++ u.buf = fed

section Run

variable {config : MultipartUploadConfig} {fed : List UInt8}

theorem streams_new (config : MultipartUploadConfig) (total : UInt64) (progressTx : Bool) :
    Streams config total progressTx [] (new config total progressTx) ⟨[], false, 0⟩ where
  reports := ⟨rfl, rfl, rfl, rfl, rfl⟩
  configured := rfl
  running := rfl
  whole := by
    rintro part ⟨⟩
  split := rfl

variable {parts : List (List UInt8)} {n : ℕ}

theorem length_flatten_of_whole (h : ∀ part ∈ parts, part.length = n) : parts.flatten.length = parts.length * n := by
  rw [length_flatten, map_eq_replicate_iff.2 h, sum_replicate_nat]

theorem ne_nil_of_whole (hn : 1 ≤ n) (h : ∀ part ∈ parts, part.length = n) : ∀ part ∈ parts, part ≠ [] := by
  rintro part hpart rfl
  have hlen := h [] hpart
  rw [length_nil] at hlen
  omega

/-- Some part of the stream is not taken in time. -/
def Refused (b : Backend) (config : MultipartUploadConfig) (fed : List UInt8) : Prop :=
  ∃ i, i * config.partSizeBytes < fed.length ∧ ¬Accepts b config i

theorem Refused.append (h : Refused b config fed) (more : List UInt8) : Refused b config (fed ++ more) := by
  obtain ⟨i, hi, hnot⟩ := h
  refine ⟨i, ?_, hnot⟩
  rw [length_append]
  omega

/-- A part that is about to be uploaded is one of the stream. -/
theorem Streams.refused (h : Streams config total progressTx fed u server) (hbuf : u.buf ≠ [])
    (hnot : ¬Accepts b config server.parts.length) : Refused b config fed := by
  refine ⟨server.parts.length, ?_, hnot⟩
  rw [← length_flatten_of_whole h.whole, ← h.split, length_append]
  have := length_pos_iff.2 hbuf
  omega

/-- Taking a whole part off the buffer and uploading it. -/
theorem Streams.accept (h : Streams config total progressTx fed u server)
    (hlen : u.config.partSizeBytes ≤ u.buf.length) :
    Streams config total progressTx fed
      (StreamingMultipartUpload.accept { u with buf := u.buf.drop u.config.partSizeBytes } server
        (u.buf.take u.config.partSizeBytes))
      { server with parts := server.parts ++ [u.buf.take u.config.partSizeBytes] } where
  reports := (h.reports.rebuffer (u.buf.drop u.config.partSizeBytes) u.finished).accept _
  configured := h.configured
  running := h.running
  whole := by
    refine forall_mem_append.2 ⟨h.whole, forall_mem_singleton.2 ?_⟩
    rw [length_take, Nat.min_eq_left hlen, h.configured]
  split := by
    show (server.parts ++ [u.buf.take u.config.partSizeBytes]).flatten ++ u.buf.drop u.config.partSizeBytes = fed
    rw [flatten_append, flatten_singleton, append_assoc, take_append_drop, h.split]

variable (b : Backend)

section

variable (hsize : 1 ≤ config.partSizeBytes)

include hsize

/-- The loop of `feed` ends, and leaves less than a part in the buffer; or some part is not taken in time. -/
theorem feedLoop_spec : ∀ (fuel : ℕ) {u : StreamingMultipartUpload} {server : Server},
      Streams config total progressTx fed u server → u.buf.length < fuel →
      (∃ u' server', feedLoop b fuel u = some (.ok (), u') ∧
        Streams config total progressTx fed u' server' ∧ u'.buf.length < config.partSizeBytes) ∨
      (Refused b config fed ∧ ∃ e u', feedLoop b fuel u = some (.error e, u')) := by
  intro fuel
  induction fuel with
  | zero =>
    intro u server _ hfuel
    omega
  | succ fuel ih =>
    intro u server h hfuel
    have hpart : 1 ≤ u.config.partSizeBytes := by
      rw [h.configured]
      exact hsize
    rw [feedLoop]
    split
    next hlen =>
      have hops : { u with buf := u.buf.drop u.config.partSizeBytes }.ops = some server := h.reports.ops
      have hbuf : u.buf ≠ [] := by
        rintro hnil
        rw [hnil, length_nil] at hlen
        omega
      rcases uploadOnePart_spec b (u.buf.take u.config.partSizeBytes) hops with
        ⟨-, hok⟩ | ⟨hnot, e, herr⟩
      · simp only [hok]
        refine ih (h.accept hlen) ?_
        show (u.buf.drop u.config.partSizeBytes).length < fuel
        rw [length_drop]
        omega
      · simp only [herr]
        exact Or.inr ⟨h.refused hbuf (h.configured ▸ hnot), e, _, rfl⟩
    next hlen =>
      refine Or.inl ⟨u, server, rfl, h, ?_⟩
      rw [← h.configured]
      omega

theorem feed_spec (chunk : List UInt8)
    (h : Streams config total progressTx fed u server) (hshort : u.buf.length < config.partSizeBytes) :
    (∃ u' server', feed b chunk u = some (.ok (), u') ∧
      Streams config total progressTx (fed ++ chunk) u' server' ∧ u'.buf.length < config.partSizeBytes) ∨
    (Refused b config (fed ++ chunk) ∧ ∃ e u', feed b chunk u = some (.error e, u')) := by
  have hrunning : ¬u.finished = true := by simp [h.running]
  rw [feed, if_neg hrunning]
  by_cases hnil : chunk = []
  · rw [if_pos hnil, hnil, append_nil]
    exact .inl ⟨u, server, rfl, h, hshort⟩
  · have hextended : Streams config total progressTx (fed ++ chunk) { u with buf := u.buf ++ chunk } server :=
      { reports := h.reports.rebuffer (u.buf ++ chunk) u.finished
        configured := h.configured
        running := h.running
        whole := h.whole
        split := by rw [← h.split, append_assoc] }
    have hfuel : (u.buf ++ chunk).length < u.buf.length + chunk.length + 1 := by
      rw [length_append]
      exact Nat.lt_succ_self _
    rw [if_neg hnil]
    exact feedLoop_spec b hsize _ hextended hfuel

theorem feedAll_spec (chunks : List (List UInt8)) :
    ∀ {fed : List UInt8} {u : StreamingMultipartUpload} {server : Server},
      Streams config total progressTx fed u server → u.buf.length < config.partSizeBytes →
      (∃ u' server', feedAll b chunks u = some (.ok (), u') ∧
        Streams config total progressTx (fed ++ chunks.flatten) u' server' ∧
        u'.buf.length < config.partSizeBytes) ∨
      (Refused b config (fed ++ chunks.flatten) ∧ ∃ e u', feedAll b chunks u = some (.error e, u')) := by
  induction chunks with
  | nil =>
    intro fed u server h hshort
    rw [flatten_nil, append_nil]
    exact .inl ⟨u, server, rfl, h, hshort⟩
  | cons chunk chunks ih =>
    intro fed u server h hshort
    rw [flatten_cons, ← append_assoc, feedAll]
    rcases feed_spec b hsize chunk h hshort with ⟨u₁, server₁, hfeed, h₁, hshort₁⟩ | ⟨hrefused, e, u₁, hfeed⟩
    · rw [hfeed]
      exact ih h₁ hshort₁
    · rw [hfeed]
      exact .inr ⟨hrefused.append _, e, u₁, rfl⟩

end

/-! ## The end -/

/-- What the server has of a stream that was uploaded to the end. -/
structure Intact (config : MultipartUploadConfig) (total : UInt64) (progressTx : Bool) (fed : List UInt8)
    (u : StreamingMultipartUpload) (server : Server) : Prop where
  reports : Reports total progressTx u server
  whole : ∀ part ∈ server.parts.dropLast, part.length = config.partSizeBytes
  nonempty : ∀ part ∈ server.parts, part ≠ []
  split : server.parts.flatten = fed

section

variable (hsize : 1 ≤ config.partSizeBytes) (h : Streams config total progressTx fed u server)

include hsize h

theorem Streams.intact (hbuf : u.buf = []) : Intact config total progressTx fed { u with finished := true } server where
  reports := h.reports.rebuffer u.buf true
  whole := by
    intro part hpart
    exact h.whole part (dropLast_subset _ hpart)
  nonempty := ne_nil_of_whole hsize h.whole
  split := by
    rw [← h.split, hbuf, append_nil]

/-- The rest of the buffer is the last part. -/
theorem Streams.intact_accept (hbuf : u.buf ≠ []) : Intact config total progressTx fed
      (StreamingMultipartUpload.accept { u with finished := true, buf := [] } server u.buf)
      { server with parts := server.parts ++ [u.buf] } where
  reports := (h.reports.rebuffer [] true).accept _
  whole := by
    intro part hpart
    rw [dropLast_concat] at hpart
    exact h.whole part hpart
  nonempty := forall_mem_append.2 ⟨ne_nil_of_whole hsize h.whole, forall_mem_singleton.2 hbuf⟩
  split := by
    rw [flatten_append, flatten_singleton, h.split]

end

/-- `complete` changes nothing about the parts, and its answer is the answer of `finish`. -/
theorem completeUpload_spec (h : Intact config total progressTx fed u server) :
    ∃ u' server', completeUpload b u = (b.completion, u') ∧
      Intact config total progressTx fed u' server' ∧ (b.complete = none → server'.completed = true) := by
  simp only [completeUpload, h.reports.ops]
  split
  next hnone =>
    refine ⟨_, { server with completed := true }, rfl, ?_, fun _ => rfl⟩
    exact ⟨⟨rfl, h.reports.totalBytes, h.reports.partCount, h.reports.bytesSofar, h.reports.progress⟩,
      h.whole, h.nonempty, h.split⟩
  next e he =>
    refine ⟨u, server, rfl, h, ?_⟩
    intro hnone
    cases hnone.symm.trans he

theorem finish_spec (hsize : 1 ≤ config.partSizeBytes) (h : Streams config total progressTx fed u server) :
    (∃ u' server', finish b u = (b.completion, u') ∧
      Intact config total progressTx fed u' server' ∧ (b.complete = none → server'.completed = true)) ∨
    (Refused b config fed ∧ ∃ e u', finish b u = (.error e, u')) := by
  have hrunning : ¬u.finished = true := by simp [h.running]
  rw [finish, if_neg hrunning]
  by_cases hbuf : u.buf = []
  · rw [if_pos hbuf]
    exact .inl (completeUpload_spec b (h.intact hsize hbuf))
  · rw [if_neg hbuf]
    have hops : { u with finished := true, buf := [] }.ops = some server := h.reports.ops
    rcases uploadOnePart_spec b u.buf hops with ⟨-, hok⟩ | ⟨hnot, e, herr⟩
    · rw [hok]
      exact .inl (completeUpload_spec b (h.intact_accept hsize hbuf))
    · rw [herr]
      exact .inr ⟨h.refused hbuf (h.configured ▸ hnot), e, _, rfl⟩

/-- A whole upload: it ends with what `complete` says and the stream is on the server, or some part was not
    taken in time and it ends with an error. -/
theorem uploadAll_spec (config : MultipartUploadConfig) (total : UInt64) (progressTx : Bool)
    (hsize : 1 ≤ config.partSizeBytes) (chunks : List (List UInt8)) :
    (∃ u server, uploadAll b chunks (new config total progressTx) = some (b.completion, u) ∧
      Intact config total progressTx chunks.flatten u server ∧ (b.complete = none → server.completed = true)) ∨
    (Refused b config chunks.flatten ∧
      ∃ e u, uploadAll b chunks (new config total progressTx) = some (.error e, u)) := by
  have hempty : (new config total progressTx).buf.length < config.partSizeBytes := hsize
  rcases feedAll_spec b hsize chunks (streams_new config total progressTx) hempty with
    ⟨u, server, hfeed, h, -⟩ | ⟨hrefused, e, u, hfeed⟩
  · rw [nil_append] at h
    simp only [uploadAll, hfeed]
    rcases finish_spec b hsize h with ⟨u', server', hfinish, hintact, hcompleted⟩ | ⟨hrefused, e, u', hfinish⟩
    · exact .inl ⟨u', server', by rw [hfinish], hintact, hcompleted⟩
    · exact .inr ⟨hrefused, e, u', by rw [hfinish]⟩
  · rw [nil_append] at hrefused
    exact .inr ⟨hrefused, e, u, by rw [uploadAll, hfeed]⟩

/-- Below `2 ^ 64` bytes no counter wraps: the reports carry the indices and the sums themselves. -/
theorem Intact.events_exact (h : Intact config total progressTx fed u server) (hfed : fed.length < 2 ^ 64)
    {i : ℕ} {event : PartProgress} (hevent : (events total server.parts)[i]? = some event) :
    event.partIndex.toNat = i ∧ event.bytesSofar.toNat = ((server.parts.take (i + 1)).map length).sum := by
  obtain ⟨hi, hget⟩ := List.getElem?_eq_some_iff.1 hevent
  rw [events, length_map, length_range] at hi
  have hsum : (server.parts.map length).sum < 2 ^ 64 := by
    rw [← length_flatten, h.split]
    exact hfed
  have hcount : server.parts.length ≤ (server.parts.map length).sum := by
    have hone : ∀ n ∈ server.parts.map length, 1 ≤ n := by
      intro n hn
      obtain ⟨part, hpart, rfl⟩ := mem_map.1 hn
      exact length_pos_iff.2 (h.nonempty part hpart)
    have hle := length_le_sum_of_one_le _ hone
    rwa [length_map] at hle
  have htake : ((server.parts.take (i + 1)).map length).sum ≤ (server.parts.map length).sum := by
    have hadd := sum_take_add_sum_drop (server.parts.map length) (i + 1)
    rw [← map_take] at hadd
    omega
  have hsize : UInt64.size = 2 ^ 64 := rfl
  subst hget
  simp only [events, getElem_map, getElem_range]
  exact ⟨UInt64.toNat_ofNat_of_lt (by omega), UInt64.toNat_ofNat_of_lt (by omega)⟩

end Run

/-- For every division of a stream into chunks: if no part fails more often than it is retried and `complete`
    is answered, the upload returns; and if it returns without an error, whatever failed on the way, the parts
    on the server are the stream, all but the last are whole, none is empty, and the reports are theirs. -/
theorem multipart_stream_integrity (b : Backend) (config : MultipartUploadConfig) (total : UInt64)
    (progressTx : Bool) (hsize : 1 ≤ config.partSizeBytes) (chunks : List (List UInt8)) :
    ((∀ i, i * config.partSizeBytes < chunks.flatten.length → Accepts b config i) → b.complete = none →
      ∃ u, uploadAll b chunks (new config total progressTx) = some (.ok (), u)) ∧
    ∀ u, uploadAll b chunks (new config total progressTx) = some (.ok (), u) →
      ∃ server, u.ops = some server ∧ server.completed = true ∧
        server.parts.flatten = chunks.flatten ∧
        (∀ part ∈ server.parts.dropLast, part.length = config.partSizeBytes) ∧
        (∀ part ∈ server.parts, part ≠ []) ∧
        u.progress = (if progressTx then some (events total server.parts) else none) ∧
        (chunks.flatten.length < 2 ^ 64 → ∀ i event, (events total server.parts)[i]? = some event →
          event.partIndex.toNat = i ∧
            event.bytesSofar.toNat = ((server.parts.take (i + 1)).map List.length).sum) := by
  rcases uploadAll_spec b config total progressTx hsize chunks with
    ⟨u, server, hrun, hintact, hcompleted⟩ | ⟨⟨i, hi, hnot⟩, e, u, hrun⟩
  · constructor
    · intro _ hcomplete
      refine ⟨u, ?_⟩
      rw [hrun, Backend.completion, hcomplete]
    · intro u' hok
      rw [hrun, Option.some.injEq, Prod.mk.injEq] at hok
      obtain ⟨hanswer, rfl⟩ := hok
      have hcomplete : b.complete = none := by
        unfold Backend.completion at hanswer
        split at hanswer
        · assumption
        · cases hanswer
      exact ⟨server, hintact.reports.ops, hcompleted hcomplete, hintact.split, hintact.whole, hintact.nonempty,
        hintact.reports.progress, fun hfed i event hevent => hintact.events_exact hfed hevent⟩
  · constructor
    · intro haccepts _
      exact absurd (haccepts i hi) hnot
    · intro u' hok
      cases hrun.symm.trans hok

/-- Five bytes in chunks of three, none and two, in parts of two; the first attempt of every part fails. -/
theorem five_bytes_integrity :
    ∃ u server, uploadAll ⟨fun _ attempt => if attempt = 0 then some "timeout" else none, none⟩
        [[1, 2, 3], [], [4, 5]] (new ⟨2, 3⟩ 5 true) = some (.ok (), u) ∧
      u.ops = some server ∧ server.parts.flatten = [1, 2, 3, 4, 5] := by
  have h := multipart_stream_integrity ⟨fun _ attempt => if attempt = 0 then some "timeout" else none, none⟩
    ⟨2, 3⟩ 5 true (by decide) [[1, 2, 3], [], [4, 5]]
  obtain ⟨u, hu⟩ := h.1 (fun i _ => ⟨1, by decide, by simp⟩) rfl
  obtain ⟨server, hops, -, hsplit, -⟩ := h.2 u hu
  exact ⟨u, server, hu, hops, hsplit⟩

end StreamingMultipartUpload

end Tagsmaxxing.MultipartStream
