import Mathlib.Data.List.Induction
import Tagsmaxxing.Core.Types
import Tagsmaxxing.Lib.Net
import Tagsmaxxing.Lib.SlidingWindow

/-! # The rate limiters of the middleware (`middleware.rs`)

Logins are limited by address, requests by API token and by tenant. The three limiters are one algorithm over three
types of keys: a key has the times of its accepted checks, a check first forgets those that have left the window, and
`prune` does that for all keys and forgets the keys with nothing left. The login and the plan limiter are told the cap
with each check, the token limiter has it as a field.

What a check answers is a function of the key's own accepted checks (`answer_eq_verdict`), and these are the log of a
sliding window (`admitted_admittedLog`). -/

namespace Tagsmaxxing.RateLimiters

open List SlidingWindow

section

variable {κ : Type} [DecidableEq κ]

/-! ## The common algorithm -/

/-- `HashMap<K, Vec<Instant>>`. -/
abbrev Hits (κ : Type) := Keyed κ (List Time)

/-- `Duration::as_secs`. -/
def asSecs (d : Time) : ℕ := ⌊d⌋.toNat

/-- `map.entry(key).or_default()`. -/
def hitsOf (map : Hits κ) (key : κ) : List Time := (map.get? key).getD []

/-- The seconds until the oldest attempt leaves the window. -/
def retryAfter (window now : Time) (attempts : List Time) : ℕ :=
  let oldest := attempts.min?.getD now
  let elapsed := asSecs (now - oldest)
  max (asSecs window - elapsed) 1

/-- The body of `check`. -/
def checkHits (window : Time) (key : κ) (cap : ℕ) (now : Time) (map : Hits κ) : Except ℕ Unit × Hits κ :=
  let attempts := recent window now (hitsOf map key)
  if cap ≤ attempts.length then (.error (retryAfter window now attempts), map.upsert key attempts)
  else (.ok (), map.upsert key (attempts ++ [now]))

/-- The body of `prune`. -/
def pruneHits (window now : Time) (map : Hits κ) : Hits κ :=
  (map.updateWhere (fun _ _ => true) (recent window now)).deleteWhere fun _ hits => hits.isEmpty

/-! ## The three limiters -/

structure LoginBruteForceLimiter where
  inner : Hits Net.IpAddr
  window : Time

namespace LoginBruteForceLimiter

def new (window : Time) : LoginBruteForceLimiter := ⟨.empty, window⟩

def check (ip : Net.IpAddr) (maxAttempts : ℕ) (now : Time) (l : LoginBruteForceLimiter) :
    Except ℕ Unit × LoginBruteForceLimiter :=
  let r := checkHits l.window ip maxAttempts now l.inner
  (r.1, { l with inner := r.2 })

def prune (now : Time) (l : LoginBruteForceLimiter) : LoginBruteForceLimiter :=
  { l with inner := pruneHits l.window now l.inner }

end LoginBruteForceLimiter

structure TokenRateLimiter where
  inner : Hits String
  maxRequests : ℕ
  window : Time

namespace TokenRateLimiter

def new (maxRequests : ℕ) (window : Time) : TokenRateLimiter := ⟨.empty, maxRequests, window⟩

def check (token : String) (now : Time) (l : TokenRateLimiter) : Except ℕ Unit × TokenRateLimiter :=
  let r := checkHits l.window token l.maxRequests now l.inner
  (r.1, { l with inner := r.2 })

def prune (now : Time) (l : TokenRateLimiter) : TokenRateLimiter :=
  { l with inner := pruneHits l.window now l.inner }

end TokenRateLimiter

structure PlanRateLimiter where
  inner : Hits Int
  window : Time

namespace PlanRateLimiter

def new (window : Time) : PlanRateLimiter := ⟨.empty, window⟩

def check (tenantId : Int) (maxRequests : ℕ) (now : Time) (l : PlanRateLimiter) : Except ℕ Unit × PlanRateLimiter :=
  let r := checkHits l.window tenantId maxRequests now l.inner
  (r.1, { l with inner := r.2 })

def prune (now : Time) (l : PlanRateLimiter) : PlanRateLimiter :=
  { l with inner := pruneHits l.window now l.inner }

end PlanRateLimiter

/-! ## Sequences of calls -/

inductive Call (κ : Type)
  | check (key : κ) (now : Time)
  | prune (now : Time)

namespace Call

def time : Call κ → Time
  | .check _ now | .prune now => now

def isCheck : Call κ → Bool
  | .check _ _ => true
  | .prune _ => false

def isCheckOf (key : κ) : Call κ → Bool
  | .check k _ => k == key
  | .prune _ => false

end Call

/-- The clock does not go back over the calls, and shows `now` at the end. -/
def Timed (calls : List (Call κ)) (now : Time) : Prop := (calls.map Call.time ++ [now]).Pairwise (· ≤ ·)

def call (window : Time) (cap : κ → ℕ) (map : Hits κ) : Call κ → Hits κ
  | .check key now => (checkHits window key (cap key) now map).2
  | .prune now => pruneHits window now map

/-- What a check of `key` at `now` is answered after the calls. -/
def answer (window : Time) (cap : κ → ℕ) (calls : List (Call κ)) (key : κ) (now : Time) : Except ℕ Unit :=
  (checkHits window key (cap key) now (calls.foldl (call window cap) .empty)).1

/-- A call of the login limiter, when the cap of each address is fixed. -/
def LoginBruteForceLimiter.call (cap : Net.IpAddr → ℕ) (l : LoginBruteForceLimiter) :
    Call Net.IpAddr → LoginBruteForceLimiter
  | .check ip now => (l.check ip (cap ip) now).2
  | .prune now => l.prune now

def LoginBruteForceLimiter.answer (window : Time) (cap : Net.IpAddr → ℕ) (calls : List (Call Net.IpAddr))
    (ip : Net.IpAddr) (now : Time) : Except ℕ Unit :=
  ((calls.foldl (LoginBruteForceLimiter.call cap) (new window)).check ip (cap ip) now).1

/-- A call of the token limiter. -/
def TokenRateLimiter.call (l : TokenRateLimiter) : Call String → TokenRateLimiter
  | .check token now => (l.check token now).2
  | .prune now => l.prune now

def TokenRateLimiter.answer (window : Time) (cap : ℕ) (calls : List (Call String)) (token : String)
    (now : Time) : Except ℕ Unit :=
  ((calls.foldl TokenRateLimiter.call (new cap window)).check token now).1

/-- A call of the plan limiter, when the cap of each tenant is fixed. -/
def PlanRateLimiter.call (cap : Int → ℕ) (l : PlanRateLimiter) : Call Int → PlanRateLimiter
  | .check tenantId now => (l.check tenantId (cap tenantId) now).2
  | .prune now => l.prune now

def PlanRateLimiter.answer (window : Time) (cap : Int → ℕ) (calls : List (Call Int)) (tenantId : Int)
    (now : Time) : Except ℕ Unit :=
  ((calls.foldl (PlanRateLimiter.call cap) (new window)).check tenantId (cap tenantId) now).1

/-- The time of a call, if it is an accepted check of the key after `past`. -/
def acceptedAt (answer : List (Call κ) → κ → Time → Except ℕ Unit) (key : κ) (past : List (Call κ)) : Call κ → List Time
  | .check k t => if k = key ∧ answer past k t = .ok () then [t] else []
  | .prune _ => []

def acceptedFrom (answer : List (Call κ) → κ → Time → Except ℕ Unit) (key : κ) (past : List (Call κ)) :
    List (Call κ) → List Time
  | [] => []
  | c :: calls => acceptedAt answer key past c ++ acceptedFrom answer key (past ++ [c]) calls

/-- The times of the accepted checks of a key. -/
def accepted (answer : List (Call κ) → κ → Time → Except ℕ Unit) (key : κ) (calls : List (Call κ)) : List Time :=
  acceptedFrom answer key [] calls

/-- What a limiter promises for windows of `w` seconds, by what it answers. -/
structure Promises (w : ℕ) (cap : κ → ℕ) (answer : List (Call κ) → κ → Time → Except ℕ Unit) : Prop where
  /-- no half-open window has more than `cap` accepted checks of a key -/
  bounded : ∀ calls now, Timed calls now → ∀ (key : κ) (a : Time),
    ((accepted answer key calls).countP fun t => decide (a ≤ t) && decide (t < a + w)) ≤ cap key ∧
      ((accepted answer key calls).countP fun t => decide (a < t) && decide (t ≤ a + w)) ≤ cap key
  /-- a rejected check can be left out -/
  rejected : ∀ calls key t r calls' now, Timed (calls ++ .check key t :: calls') now →
    answer calls key t = .error r →
      ∀ k, answer (calls ++ .check key t :: calls') k now = answer (calls ++ calls') k now
  /-- so can everything but the checks of the key that asks -/
  independent : ∀ calls now, Timed calls now → ∀ key,
    answer calls key now = answer (calls.filter (Call.isCheckOf key)) key now
  /-- and all calls of `prune` -/
  pruned : ∀ calls now, Timed calls now → ∀ key,
    answer calls key now = answer (calls.filter Call.isCheck) key now
  /-- `r` seconds after it was rejected, a key with no accepted check in between is accepted -/
  retry : ∀ calls key t r calls', Timed (calls ++ .check key t :: calls') (t + (r : ℕ)) →
    answer calls key t = .error r →
      accepted answer key (calls ++ .check key t :: calls') = accepted answer key calls →
        answer (calls ++ .check key t :: calls') key (t + (r : ℕ)) = .ok ()

/-! ## The log of a key -/

/-- What a check answers, by the log of its key. -/
def verdict (window : Time) (cap : ℕ) (now : Time) (log : List Time) : Except ℕ Unit :=
  if cap ≤ (recent window now log).length then .error (retryAfter window now (recent window now log)) else .ok ()

/-- The log of a key, if checks of the key alone are looked at and nothing is ever forgotten. -/
def logCall (window : Time) (cap : ℕ) (key : κ) (log : List Time) : Call κ → List Time
  | .check k t => if k = key ∧ (recent window t log).length < cap then log ++ [t] else log
  | .prune _ => log

def admittedLog (window : Time) (cap : ℕ) (key : κ) (calls : List (Call κ)) : List Time :=
  calls.foldl (logCall window cap key) []

variable {window : Time} {cap : κ → ℕ} {calls : List (Call κ)} {now : Time} {key : κ}

omit [DecidableEq κ] in
theorem Timed.concat {c : Call κ} (h : Timed (calls ++ [c]) now) : Timed calls c.time ∧ c.time ≤ now := by
  rw [Timed, map_append, map_singleton, pairwise_append] at h
  exact ⟨h.1, h.2.2 c.time (by simp) now (by simp)⟩

omit [DecidableEq κ] in
theorem Timed.of_sublist {calls' : List (Call κ)} (h : Timed calls now) (hsub : calls'.Sublist calls) :
    Timed calls' now :=
  List.Pairwise.sublist ((hsub.map Call.time).append_right [now]) h

theorem admittedLog_concat (window : Time) (n : ℕ) (key : κ) (calls : List (Call κ)) (c : Call κ) :
    admittedLog window n key (calls ++ [c]) = logCall window n key (admittedLog window n key calls) c := by
  rw [admittedLog, admittedLog, foldl_append, foldl_cons, foldl_nil]

/-- A call that is not a check of the key leaves its log alone. -/
theorem logCall_of_not_isCheckOf {c : Call κ} (h : Call.isCheckOf key c = false) (window : Time) (n : ℕ)
    (log : List Time) : logCall window n key log c = log := by
  cases c with
  | check k t =>
    have hne : k ≠ key := by simpa [Call.isCheckOf] using h
    exact if_neg fun hk => hne hk.1
  | prune t => rfl

/-- Calls that are not checks of the key can be left out. -/
theorem admittedLog_filter {p : Call κ → Bool} (hp : ∀ c, p c = false → Call.isCheckOf key c = false)
    (window : Time) (n : ℕ) (calls : List (Call κ)) :
    admittedLog window n key (calls.filter p) = admittedLog window n key calls := by
  induction calls using reverseRecOn with
  | nil => rfl
  | append_singleton calls c ih =>
    rw [filter_append, filter_singleton, admittedLog_concat]
    cases hc : p c with
    | true => rw [cond_true, admittedLog_concat, ih]
    | false =>
      rw [logCall_of_not_isCheckOf (hp c hc), ← ih]
      simp

variable {t : Time} {n : ℕ}

/-- The log of a key is the log of a sliding window, and has no time of the future. -/
theorem admitted_admittedLog (h : Timed calls now) (window : Time) (n : ℕ) (key : κ) :
    Admitted n window (admittedLog window n key calls) ∧ ∀ t ∈ admittedLog window n key calls, t ≤ now := by
  induction calls using reverseRecOn generalizing now with
  | nil => exact ⟨.nil, by simp [admittedLog]⟩
  | append_singleton calls c ih =>
    obtain ⟨hcalls, hc⟩ := h.concat
    obtain ⟨hlog, hle⟩ := ih hcalls
    have hold := fun t ht => (hle t ht).trans hc
    rw [admittedLog_concat]
    cases c with
    | check k s =>
      rw [logCall]
      split_ifs with hk
      · exact ⟨hlog.concat hle hk.2, forall_mem_append.2 ⟨hold, by simpa [Call.time] using hc⟩⟩
      · exact ⟨hlog, hold⟩
    | prune s => exact ⟨hlog, hold⟩

/-! ## What the map keeps -/

theorem hitsOf_pruneHits (window now : Time) (map : Hits κ) (key : κ) :
    hitsOf (pruneHits window now map) key = recent window now (hitsOf map key) := by
  rw [hitsOf, pruneHits, Keyed.get?_deleteWhere, Keyed.get?_updateWhere, hitsOf]
  cases map.get? key with
  | none => rfl
  | some hits =>
    rw [Option.map_some, if_pos rfl, Option.filter_some]
    split_ifs with hempty
    · rfl
    · rw [Bool.not_eq_true', Bool.not_eq_false, List.isEmpty_iff] at hempty
      rw [Option.getD_some, hempty]
      rfl

theorem hitsOf_upsert (map : Hits κ) (k : κ) (hits : List Time) (key : κ) :
    hitsOf (map.upsert k hits) key = if key = k then hits else hitsOf map key := by
  rw [hitsOf, Keyed.get?_upsert]
  split_ifs
  · rfl
  · rfl

theorem hitsOf_checkHits_of_ne {k : κ} (h : key ≠ k) (window : Time) (n : ℕ) (now : Time) (map : Hits κ) :
    hitsOf (checkHits window k n now map).2 key = hitsOf map key := by
  rw [checkHits]
  split_ifs
  all_goals rw [hitsOf_upsert, if_neg h]

theorem hitsOf_checkHits_self (window : Time) (k : κ) (n : ℕ) (now : Time) (map : Hits κ) :
    hitsOf (checkHits window k n now map).2 k =
      if n ≤ (recent window now (hitsOf map k)).length then recent window now (hitsOf map k)
      else recent window now (hitsOf map k) ++ [now] := by
  rw [checkHits]
  split_ifs
  all_goals rw [hitsOf_upsert, if_pos rfl]

/-- What is kept of a key differs from its log in what no later check looks at. -/
theorem recent_hitsOf (h : Timed calls now) (key : κ) :
    recent window now (hitsOf (calls.foldl (call window cap) .empty) key) =
      recent window now (admittedLog window (cap key) key calls) := by
  induction calls using reverseRecOn generalizing now with
  | nil => rfl
  | append_singleton calls c ih =>
    obtain ⟨hcalls, hc⟩ := h.concat
    have hkept := ih hcalls
    -- what is the same at the call is the same later on
    rw [← recent_recent hc, ← recent_recent hc (admittedLog ..)]
    congr 1
    rw [foldl_append, foldl_cons, foldl_nil, admittedLog_concat]
    generalize calls.foldl (call window cap) .empty = map at hkept ⊢
    cases c with
    | check k t =>
      rw [call, logCall]
      by_cases hk : k = key
      · subst hk
        have hkept : recent window t (hitsOf map k) =
            recent window t (admittedLog window (cap k) k calls) := hkept
        rw [hitsOf_checkHits_self, hkept]
        by_cases hfull : cap k ≤ (recent window t (admittedLog window (cap k) k calls)).length
        · rw [if_pos hfull, if_neg fun hlt => absurd hlt.2 (not_lt.2 hfull)]
          exact recent_recent (le_refl t) _
        · rw [if_neg hfull, if_pos ⟨rfl, not_le.1 hfull⟩, recent_append, recent_append]
          exact congrArg (· ++ _) (recent_recent (le_refl t) _)
      · rw [hitsOf_checkHits_of_ne (Ne.symm hk), if_neg fun hand => hk hand.1]
        exact hkept
    | prune t =>
      rw [call, hitsOf_pruneHits, logCall]
      exact (recent_recent (le_refl t) _).trans hkept

/-- What a check answers is a function of the accepted checks of its key. -/
theorem answer_eq_verdict (h : Timed calls now) (key : κ) :
    answer window cap calls key now = verdict window (cap key) now (admittedLog window (cap key) key calls) := by
  rw [answer, checkHits, recent_hitsOf h, verdict]
  split_ifs
  · rfl
  · rfl

theorem acceptedFrom_concat (answer : List (Call κ) → κ → Time → Except ℕ Unit) (key : κ)
    (past calls : List (Call κ)) (c : Call κ) :
    acceptedFrom answer key past (calls ++ [c]) =
      acceptedFrom answer key past calls ++ acceptedAt answer key (past ++ calls) c := by
  induction calls generalizing past with
  | nil => simp [acceptedFrom]
  | cons d calls ih =>
    rw [cons_append, acceptedFrom, acceptedFrom, ih, append_assoc, append_assoc]
    rfl

variable {log : List Time}

theorem verdict_eq_ok :
    verdict window n now log = .ok () ↔ (recent window now log).length < n := by
  rw [verdict]
  split_ifs with hfull
  · simp [hfull]
  · simp [not_le.1 hfull]

theorem accepted_eq (h : Timed calls now) (key : κ) :
    accepted (answer window cap) key calls = admittedLog window (cap key) key calls := by
  induction calls using reverseRecOn generalizing now with
  | nil => rfl
  | append_singleton calls c ih =>
    obtain ⟨hcalls, -⟩ := h.concat
    rw [accepted, acceptedFrom_concat, nil_append, admittedLog_concat, ← ih hcalls]
    cases c with
    | check k t =>
      rw [acceptedAt, logCall]
      by_cases hk : k = key
      · subst hk
        have hcalls : Timed calls t := hcalls
        rw [answer_eq_verdict hcalls]
        simp only [verdict_eq_ok]
        rw [← ih hcalls]
        split_ifs
        · rfl
        · exact append_nil _
      · rw [if_neg fun hand => hk hand.1, if_neg fun hand => hk hand.1]
        exact append_nil _
    | prune t => exact append_nil _

/-! ## The promises -/

omit [DecidableEq κ] in
theorem Timed.before {c : Call κ} {calls' : List (Call κ)} (h : Timed (calls ++ c :: calls') now) :
    Timed calls c.time ∧ c.time ≤ now := by
  have hsub : (calls ++ [c]).Sublist (calls ++ c :: calls') :=
    (singleton_sublist.2 (mem_cons_self ..)).append_left calls
  exact (h.of_sublist hsub).concat

theorem asSecs_natCast (w : ℕ) : asSecs w = w := by
  rw [asSecs, Int.floor_natCast, Int.toNat_natCast]

theorem asSecs_le {d : Time} (h : 0 ≤ d) : (asSecs d : Time) ≤ d := by
  have hfloor : ((⌊d⌋.toNat : Int) : Time) ≤ d := by
    rw [Int.toNat_of_nonneg (Int.floor_nonneg.2 h)]
    exact Int.floor_le d
  exact_mod_cast hfloor

/-- After the time of a rejection the oldest attempt has left the window. -/
theorem exists_old_of_retryAfter {w : ℕ} {attempts : List Time} (hne : attempts ≠ []) (hle : ∀ s ∈ attempts, s ≤ t) :
    ∃ s ∈ attempts, s ≤ t + (retryAfter (w : Time) t attempts : Time) - w := by
  obtain ⟨oldest, holdest⟩ : ∃ s, attempts.min? = some s :=
    Option.isSome_iff_exists.1 (isSome_min?_of_ne_nil hne)
  have hmem : oldest ∈ attempts := min?_mem holdest
  refine ⟨oldest, hmem, ?_⟩
  have helapsed : (asSecs (t - oldest) : Time) ≤ t - oldest := asSecs_le (sub_nonneg.2 (hle oldest hmem))
  have hretry : w ≤ retryAfter (w : Time) t attempts + asSecs (t - oldest) := by
    rw [retryAfter, holdest, asSecs_natCast, Option.getD_some]
    omega
  have hretry : (w : Time) ≤ retryAfter (w : Time) t attempts + asSecs (t - oldest) := by exact_mod_cast hretry
  linarith

theorem verdict_of_retry {w : ℕ} {r : ℕ} (hpos : 1 ≤ n) (hlog : Admitted n (w : Time) log) (hle : ∀ s ∈ log, s ≤ t)
    (hrejected : verdict w n t log = .error r) : verdict w n (t + r) log = .ok () := by
  rw [verdict] at hrejected
  split_ifs at hrejected with hfull
  cases hrejected
  have hne : recent (w : Time) t log ≠ [] := ne_nil_of_length_pos (lt_of_lt_of_le hpos hfull)
  obtain ⟨s, hs, hold⟩ := exists_old_of_retryAfter (w := w) hne fun s hs => hle s (mem_recent.1 hs).1
  rw [verdict_eq_ok]
  exact (length_recent_lt (le_add_of_nonneg_right (Nat.cast_nonneg _)) hs hold).trans_le
    (hlog.length_recent_le hle)

theorem admittedLog_of_rejected {r : ℕ} (h : Timed calls t)
    (hrejected : answer window cap calls key t = .error r) (calls' : List (Call κ)) (k : κ) :
    admittedLog window (cap k) k (calls ++ .check key t :: calls') =
      admittedLog window (cap k) k (calls ++ calls') := by
  have hsame : logCall window (cap k) k (admittedLog window (cap k) k calls) (.check key t) =
      admittedLog window (cap k) k calls := by
    refine if_neg fun hroom => ?_
    obtain ⟨rfl, hlt⟩ := hroom
    rw [answer_eq_verdict h, verdict_eq_ok.2 hlt] at hrejected
    cases hrejected
  rw [admittedLog, foldl_append, foldl_cons, admittedLog, foldl_append]
  exact congrArg (fun log => calls'.foldl (logCall window (cap k) k) log) hsame

theorem promises_answer (w : ℕ) (hcap : ∀ key, 1 ≤ cap key) :
    Promises w cap (answer (w : Time) cap) where
  bounded calls now h key a := by
    rw [accepted_eq h]
    have hlog := (admitted_admittedLog h (w : Time) (cap key) key).1
    exact ⟨hlog.countP_Ico_le a, hlog.countP_Ioc_le a⟩
  rejected calls key t r calls' now h hrejected k := by
    have hsub : (calls ++ calls').Sublist (calls ++ .check key t :: calls') :=
      (sublist_cons_self _ _).append_left calls
    have ht : Timed calls t := h.before.1
    rw [answer_eq_verdict h, answer_eq_verdict (h.of_sublist hsub), admittedLog_of_rejected ht hrejected]
  independent calls now h key := by
    rw [answer_eq_verdict h, answer_eq_verdict (h.of_sublist filter_sublist),
      admittedLog_filter fun c hc => hc]
  pruned calls now h key := by
    have hprune : ∀ c : Call κ, c.isCheck = false → c.isCheckOf key = false := by
      intro c hc
      cases c with
      | check k t => cases hc
      | prune t => rfl
    rw [answer_eq_verdict h, answer_eq_verdict (h.of_sublist filter_sublist), admittedLog_filter hprune]
  retry calls key t r calls' h hrejected hnone := by
    have ht : Timed calls t := h.before.1
    rw [accepted_eq h, accepted_eq ht] at hnone
    rw [answer_eq_verdict ht] at hrejected
    rw [answer_eq_verdict h, hnone]
    obtain ⟨hlog, hle⟩ := admitted_admittedLog ht (w : Time) (cap key) key
    exact verdict_of_retry (hcap key) hlog hle hrejected

end

/-! ## The limiters keep them -/

variable (window : Time)

theorem LoginBruteForceLimiter.answer_eq (cap : Net.IpAddr → ℕ) :
    LoginBruteForceLimiter.answer window cap = RateLimiters.answer window cap := by
  funext calls ip now
  have hrun : calls.foldl (LoginBruteForceLimiter.call cap) (.new window) =
      ⟨calls.foldl (RateLimiters.call window cap) .empty, window⟩ :=
    foldl_hom (fun map => LoginBruteForceLimiter.mk map window) fun map c => by cases c <;> rfl
  rw [LoginBruteForceLimiter.answer, hrun]
  rfl

theorem TokenRateLimiter.answer_eq (cap : ℕ) :
    TokenRateLimiter.answer window cap = RateLimiters.answer window fun _ => cap := by
  funext calls token now
  have hrun : calls.foldl TokenRateLimiter.call (.new cap window) =
      ⟨calls.foldl (RateLimiters.call window fun _ => cap) .empty, cap, window⟩ :=
    foldl_hom (fun map => TokenRateLimiter.mk map cap window) fun map c => by cases c <;> rfl
  rw [TokenRateLimiter.answer, hrun]
  rfl

theorem PlanRateLimiter.answer_eq (cap : Int → ℕ) :
    PlanRateLimiter.answer window cap = RateLimiters.answer window cap := by
  funext calls tenantId now
  have hrun : calls.foldl (PlanRateLimiter.call cap) (.new window) =
      ⟨calls.foldl (RateLimiters.call window cap) .empty, window⟩ :=
    foldl_hom (fun map => PlanRateLimiter.mk map window) fun map c => by cases c <;> rfl
  rw [PlanRateLimiter.answer, hrun]
  rfl

/-- Every limiter with a positive cap for each key keeps its promises, for every window of whole seconds. -/
theorem limiters_promise (w : ℕ) :
    (∀ cap : Net.IpAddr → ℕ, (∀ ip, 1 ≤ cap ip) → Promises w cap (LoginBruteForceLimiter.answer w cap)) ∧
    (∀ cap : ℕ, 1 ≤ cap → Promises w (fun _ => cap) (TokenRateLimiter.answer w cap)) ∧
    (∀ cap : Int → ℕ, (∀ tenantId, 1 ≤ cap tenantId) → Promises w cap (PlanRateLimiter.answer w cap)) := by
  refine ⟨fun cap hcap => ?_, fun cap hcap => ?_, fun cap hcap => ?_⟩
  · rw [LoginBruteForceLimiter.answer_eq]
    exact promises_answer w hcap
  · rw [TokenRateLimiter.answer_eq]
    exact promises_answer w fun _ => hcap
  · rw [PlanRateLimiter.answer_eq]
    exact promises_answer w hcap

/-- The limiter of API tokens as it is configured: with 2 in place of 100 requests, the third in a minute is
    told to come back after 50 seconds, and is accepted then. -/
theorem third_request_retries :
    TokenRateLimiter.answer 60 2 [.check "t" 0, .check "t" 10] "t" (21 / 2) = .error 50 ∧
      TokenRateLimiter.answer 60 2 [.check "t" 0, .check "t" 10, .check "t" (21 / 2)] "t" (121 / 2) = .ok () := by
  have hrejected : TokenRateLimiter.answer 60 2 [.check "t" 0, .check "t" 10] "t" (21 / 2) = .error 50 := by
    decide +kernel
  refine ⟨hrejected, ?_⟩
  have hretry := ((limiters_promise 60).2.1 2 (by decide)).retry [.check "t" 0, .check "t" 10] "t" (21 / 2) 50 []
  have htime : (21 / 2 : Time) + (50 : ℕ) = 121 / 2 := by norm_num
  rw [htime] at hretry
  refine hretry ?_ hrejected ?_
  · unfold Timed
    decide +kernel
  · decide +kernel

end Tagsmaxxing.RateLimiters
