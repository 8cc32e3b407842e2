import Tagsmaxxing.Pipeline.DocumentBuilder

/-! # The cache of query embeddings (`retrieval.rs`)

`run_hybrid` looks the trimmed and lower-cased query up in a cache that all tenants share, and embeds the query
as it was typed on a miss. Searches run concurrently: a search that missed waits for its embedding while
others look up and insert. Two queries with one key get the embedding of the one that came first:
`query_embedding_own_iff`. -/

namespace Tagsmaxxing.QueryCache

open Transition

/-- A query text. -/
abbrev Text := List Char

variable {ε : Type}

/-- `EMBED_CACHE`: embeddings with the instant of their insertion. -/
abbrev Cache (ε : Type) := Keyed Text (ε × Time)

/-- Not yet sixty seconds old. -/
def isFresh (now : Time) (entry : ε × Time) : Bool := max (now - entry.2) 0 < 60

def cachedEmbed (cache : Cache ε) (now : Time) (key : Text) : Option ε :=
  ((cache.get? key).filter (isFresh now)).map Prod.fst

def cacheEmbed (cache : Cache ε) (now : Time) (key : Text) (embedding : ε) : Cache ε :=
  (if 256 ≤ cache.rows.length then cache.deleteWhere fun _ entry => !isFresh now entry else cache).upsert key
    (embedding, now)

/-- The cache, the searches that wait for `embed_query` and the calls of `hybrid_search` so far, each with the
    tenant, the query text and, for a call, its embedding. -/
structure State (ε : Type) where
  cache : Cache ε
  pending : List (Int × Text)
  passed : List (Int × Text × ε)

def State.new : State ε := ⟨.empty, [], []⟩

inductive Act
  /-- a search starts -/
  | search (tenantId : Int) (text : Text) (now : Time)
  /-- `embed_query` of a pending search returns, and what comes after its `await` is run -/
  | embedded (i : ℕ) (now : Time)
  /-- it returns an error -/
  | failed (i : ℕ)

/-- The cache key. -/
def cacheKey (toLowercase : Text → Text) (text : Text) : Text := toLowercase (trim text)

/-- One step of the searches: `run_hybrid` up to `hybrid_search`. -/
def step (toLowercase : Text → Text) (embed : Text → ε) (s : State ε) : Act → Option (State ε)
  | .search tenantId text now =>
      match cachedEmbed s.cache now (cacheKey toLowercase text) with
      | some cached => some { s with passed := s.passed ++ [(tenantId, text, cached)] }
      | none => some { s with pending := s.pending ++ [(tenantId, text)] }
  | .embedded i now => do
      let (tenantId, text) ← s.pending[i]?
      some ⟨cacheEmbed s.cache now (cacheKey toLowercase text) (embed text), s.pending.eraseIdx i,
        s.passed ++ [(tenantId, text, embed text)]⟩
  | .failed i => do
      let _ ← s.pending[i]?
      some { s with pending := s.pending.eraseIdx i }

variable {toLowercase : Text → Text} {embed : Text → ε} {s s' : State ε} {a : Act}

/-- Every embedding in the cache, and every one passed on, is that of a query with the same key. -/
structure Inv (toLowercase : Text → Text) (embed : Text → ε) (s : State ε) : Prop where
  cached : ∀ key entry, s.cache.get? key = some entry →
    ∃ text, cacheKey toLowercase text = key ∧ embed text = entry.1
  passed : ∀ c ∈ s.passed, ∃ text, cacheKey toLowercase text = cacheKey toLowercase c.2.1 ∧ embed text = c.2.2

theorem get?_cacheEmbed {cache : Cache ε} {now : Time} {key k : Text} {embedding : ε} {entry : ε × Time}
    (h : (cacheEmbed cache now key embedding).get? k = some entry) :
    k = key ∧ entry = (embedding, now) ∨ cache.get? k = some entry := by
  rw [cacheEmbed, Keyed.get?_upsert] at h
  split_ifs at h with hk hfull
  · exact .inl ⟨hk, (Option.some.inj h).symm⟩
  · rw [Keyed.get?_deleteWhere] at h
    exact .inr (Option.eq_some_of_filter_eq_some h)
  · exact .inr h

theorem inv_step (hs : Inv toLowercase embed s) (h : step toLowercase embed s a = some s') :
    Inv toLowercase embed s' := by
  cases a with
  | search tenantId text now =>
    rw [step] at h
    split at h <;> cases h
    next cached hcached =>
      obtain ⟨entry, hentry, rfl⟩ := Option.map_eq_some_iff.1 hcached
      refine ⟨hs.cached, List.forall_mem_append.2 ⟨hs.passed, List.forall_mem_singleton.2 ?_⟩⟩
      exact hs.cached _ entry (Option.eq_some_of_filter_eq_some hentry)
    next => exact ⟨hs.cached, hs.passed⟩
  | embedded i now =>
    obtain ⟨⟨tenantId, text⟩, -, ⟨⟩⟩ := Option.bind_eq_some_iff.1 h
    refine ⟨fun key entry hentry => ?_, List.forall_mem_append.2 ⟨hs.passed, List.forall_mem_singleton.2 ⟨text, ?_⟩⟩⟩
    · rcases get?_cacheEmbed hentry with ⟨rfl, rfl⟩ | hentry
      · exact ⟨text, rfl, rfl⟩
      · exact hs.cached key entry hentry
    · exact ⟨rfl, rfl⟩
  | failed i =>
    obtain ⟨-, -, ⟨⟩⟩ := Option.bind_eq_some_iff.1 h
    exact ⟨hs.cached, hs.passed⟩

/-- After every history of searches every query is searched with its own embedding exactly if queries with one
    key have one embedding. -/
theorem query_embedding_own_iff :
    (∀ es s, Run (Fires (step toLowercase embed)) State.new es s → ∀ c ∈ s.passed, c.2.2 = embed c.2.1) ↔
      ∀ q q', cacheKey toLowercase q = cacheKey toLowercase q' → embed q = embed q' := by
  constructor
  · intro h q q' hkey
    -- a search for `q` fills the cache, and one for `q'` hits it
    let filled : State ε := ⟨cacheEmbed .empty 0 (cacheKey toLowercase q) (embed q), [], [(0, q, embed q)]⟩
    have hhit : cachedEmbed filled.cache 0 (cacheKey toLowercase q') = some (embed q) := by
      simp [filled, cachedEmbed, cacheEmbed, isFresh, hkey, Keyed.empty]
    have hsearch : step toLowercase embed filled (.search 0 q' 0) =
        some { filled with passed := [(0, q, embed q), (0, q', embed q)] } := by
      simp only [step, hhit]
      rfl
    have hrun : Run (Fires (step toLowercase embed)) State.new _ _ :=
      ((Run.nil.snoc (a := .search 0 q 0) rfl).snoc (a := .embedded 0 0) rfl).snoc hsearch
    exact h _ _ hrun (0, q', embed q) (by simp)
  · intro h es s hrun c hc
    have hinv : Inv toLowercase embed s := hrun.invariant ⟨by simp [State.new], by simp [State.new]⟩
      fun _ _ _ hstep hs => inv_step hs hstep
    obtain ⟨text, hkey, hembed⟩ := hinv.passed c hc
    rw [← hembed, h text _ hkey]

/-- Lower case of the ASCII letters, and an embedding that tells all texts apart. -/
theorem upper_case_served_to_lower_case :
    ∃ es s, Run (Fires (step (List.map Char.toLower) id)) State.new es s ∧
      es.map Edge.label = [.search 1 ['A'] 0, .embedded 0 0, .search 2 ['a'] 1] ∧ (2, ['a'], ['A']) ∈ s.passed := by
  exact exists_run_of_holds (by decide +kernel)

end Tagsmaxxing.QueryCache
