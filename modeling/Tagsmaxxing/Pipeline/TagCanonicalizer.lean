import Tagsmaxxing.Pipeline.DocumentBuilder

/-! # Tag canonicalization (`tag_canonicalizer.rs`)

`canonicalize` maps the tags a model proposes to the tenant's canonical tags: by an alias if there is one,
else by the most similar embedding, else by a new tag. New tags join the candidates while the batch is
processed. The embedding model, the similarity and Unicode lower-casing are parameters. -/

namespace Tagsmaxxing.TagCanonicalizer

open Option List

/-! ## Tag names -/

/-- The final character is removed if it repeats the one before. The outer `none` is a panic: the byte
    slice cuts a character that is longer than one byte. -/
def undoubleFinal (stem : List Char) : Option (Option (List Char)) :=
  match stem.reverse with
  | last :: prev :: _ :: _ =>
      if last = prev ∧ last ≠ 's' ∧ last ≠ 'l' then
        if last.utf8Size = 1 then
          if 3 ≤ String.utf8Len stem.dropLast then some (some stem.dropLast) else some none
        else none
      else some none
  | _ => some none

/-- `MIN_LEN`, in bytes. -/
def minLen : ℕ := 4

/-- `MIN_STEM`, in bytes. -/
def minStem : ℕ := 3

/-- The suffixes, in the order in which they are tried. -/
def suffixes : List (List Char) :=
  ["ness".toList, "ment".toList, "ing".toList, "ed".toList, "ly".toList, "er".toList]

/-- The word without a suffix of it. -/
def stemOf (word suffix : List Char) : List Char := word.take (word.length - suffix.length)

/-- `none` is a panic. -/
def simpleStem (word : List Char) : Option (List Char) :=
  if String.utf8Len word < minLen then some word
  else
    match suffixes.find? fun suffix => decide (suffix <:+ word) && decide (String.utf8Len word > suffix.length + 1) &&
        decide (minStem ≤ String.utf8Len (stemOf word suffix)) with
    | some suffix => (undoubleFinal (stemOf word suffix)).map fun deduped => deduped.getD (stemOf word suffix)
    | none =>
        if ['s'] <:+ word ∧ ¬ ['s', 's'] <:+ word ∧ ¬ ['u', 's'] <:+ word ∧ ¬ ['i', 's'] <:+ word ∧
            minStem ≤ String.utf8Len word.dropLast then
          some word.dropLast
        else some word

def isSeparator (c : Char) : Bool := c == '-' || c == '_' || c == '/' || c == '.'

def splitWhitespace (text : List Char) : List (List Char) :=
  (text.splitOnP isWhitespace).filter fun word => !word.isEmpty

/-- The words of a name, in lower case. -/
def words (toLowercase : String → String) (raw : String) : List (List Char) :=
  splitWhitespace ((toLowercase raw).toList.map fun c => if isSeparator c then ' ' else c)

/-- `none` is a panic. -/
def normalizeTagName (toLowercase : String → String) (raw : String) : Option String :=
  ((words toLowercase raw).mapM simpleStem).map fun stemmed =>
    String.ofList (List.intercalate [' '] (stemmed.filter fun word => !word.isEmpty))

/-! ### Which names make it panic -/

/-- It ends in a doubled character of more than one byte, and has another one. -/
def Doubled (stem : List Char) : Prop := ∃ front c, front ≠ [] ∧ 1 < Char.utf8Size c ∧ stem = front ++ [c, c]

/-- Before a suffix, the word ends in a doubled character of more than one byte. -/
def Cut (word : List Char) : Prop := ∃ stem, Doubled stem ∧ ∃ suffix ∈ suffixes, word = stem ++ suffix

theorem undoubleFinal_eq_none_iff (stem : List Char) : undoubleFinal stem = none ↔ Doubled stem := by
  have hsplit : ∀ front c, stem = front ++ [c, c] ↔ stem.reverse = c :: c :: front.reverse := by
    intro front c
    rw [← reverse_inj]
    simp
  simp only [Doubled, hsplit, undoubleFinal]
  split
  next last prev third rest hrev =>
    have hsize := last.utf8Size_pos
    rw [hrev]
    constructor
    · intro hnone
      split at hnone
      next hdouble =>
        split at hnone
        · split at hnone <;> cases hnone
        · exact ⟨(third :: rest).reverse, last, by simp, by omega, by simp [hdouble.1]⟩
      · cases hnone
    · rintro ⟨front, c, -, hc, heq⟩
      obtain ⟨rfl, rfl, -⟩ : last = c ∧ prev = c ∧ third :: rest = front.reverse := by simpa using heq
      have hne : prev ≠ 's' ∧ prev ≠ 'l' := by
        constructor <;> rintro rfl <;> exact absurd hc (by decide)
      rw [if_pos ⟨rfl, hne⟩, if_neg hc.ne']
  next hshort =>
    refine iff_of_false (by simp) ?_
    rintro ⟨front, c, hfront, -, heq⟩
    obtain ⟨x, rest, hrest⟩ := exists_cons_of_ne_nil (reverse_ne_nil_iff.2 hfront)
    exact hshort c c x rest (heq.trans (by rw [hrest]))

theorem Doubled.five_le {stem : List Char} (h : Doubled stem) : 5 ≤ String.utf8Len stem := by
  obtain ⟨front, c, hfront, hc, rfl⟩ := h
  obtain ⟨x, rest, rfl⟩ := exists_cons_of_ne_nil hfront
  have hx := x.utf8Size_pos
  simp only [String.utf8Len_append, String.utf8Len_cons, String.utf8Len_nil]
  omega

theorem stemOf_append (stem suffix : List Char) : stemOf (stem ++ suffix) suffix = stem := by
  simp [stemOf]

/-- No two of the suffixes end alike. -/
theorem suffix_unique {word s t : List Char} (hs : s ∈ suffixes) (ht : t ∈ suffixes) (hsw : s <:+ word)
    (htw : t <:+ word) : s = t := by
  have hlast : ∀ s ∈ suffixes, ∀ t ∈ suffixes, s.getLast? = t.getLast? → s = t := by decide
  have hne : ∀ s ∈ suffixes, s ≠ [] := by decide
  refine hlast s hs t ht ?_
  obtain ⟨a, rfl⟩ := hsw
  obtain ⟨b, hb⟩ := htw
  rw [← getLast?_append_of_ne_nil a (hne s hs), ← hb, getLast?_append_of_ne_nil b (hne t ht)]

theorem simpleStem_eq_none_iff (word : List Char) : simpleStem word = none ↔ Cut word := by
  constructor
  · intro h
    unfold simpleStem at h
    split at h
    · cases h
    · split at h
      next suffix hfind =>
        have htests := find?_some hfind
        simp only [Bool.and_eq_true, decide_eq_true_eq] at htests
        obtain ⟨stem, rfl⟩ := htests.1.1
        rw [stemOf_append, map_eq_none_iff, undoubleFinal_eq_none_iff] at h
        exact ⟨stem, h, suffix, mem_of_find?_eq_some hfind, rfl⟩
      · split at h <;> cases h
  · rintro ⟨stem, hstem, suffix, hsuffix, rfl⟩
    have hfive := hstem.five_le
    have hbytes : suffix.length ≤ String.utf8Len suffix := by revert suffix; decide
    have hword := String.utf8Len_append stem suffix
    have hlong : ¬String.utf8Len (stem ++ suffix) < minLen := by
      rw [minLen]
      omega
    unfold simpleStem
    rw [if_neg hlong]
    split
    next found hfind =>
      have htests := find?_some hfind
      simp only [Bool.and_eq_true, decide_eq_true_eq] at htests
      obtain rfl := suffix_unique (mem_of_find?_eq_some hfind) hsuffix htests.1.1 (suffix_append _ _)
      rwa [stemOf_append, map_eq_none_iff, undoubleFinal_eq_none_iff]
    next hfind =>
      refine absurd ?_ (find?_eq_none.1 hfind suffix hsuffix)
      simp only [Bool.and_eq_true, decide_eq_true_eq, stemOf_append, minStem]
      exact ⟨⟨suffix_append _ _, by omega⟩, by omega⟩

theorem mapM_eq_none_iff {α β : Type} {f : α → Option β} (l : List α) : l.mapM f = none ↔ ∃ x ∈ l, f x = none := by
  induction l with
  | nil => simp
  | cons x l ih => cases hx : f x <;> cases hl : l.mapM f <;> simp_all [mapM_cons]

theorem normalizeTagName_eq_none_iff (toLowercase : String → String) (raw : String) :
    normalizeTagName toLowercase raw = none ↔ ∃ word ∈ words toLowercase raw, Cut word := by
  simp only [normalizeTagName, map_eq_none_iff, mapM_eq_none_iff, simpleStem_eq_none_iff]

/-! ## The tenant's tags -/

/-- A row of `tags`, under its name. -/
structure TagRow (ε : Type) where
  id : ℕ
  embedding : Option ε

structure TagStore (ε : Type) where
  tags : Keyed String (TagRow ε)
  nextId : ℕ
  aliases : Keyed String ℕ

section
variable {ε S : Type}

namespace TagStore

def lookupAlias (store : TagStore ε) (name : String) : Option ℕ := store.aliases.get? name

/-- The tags with an embedding. -/
def findSimilarTags (store : TagStore ε) : List (ℕ × ε) :=
  store.tags.rows.filterMap fun x => x.2.embedding.map fun embedding => (x.2.id, embedding)

/-- `ON CONFLICT (tenant_id, alias) DO NOTHING`. -/
def insertTagAlias (store : TagStore ε) (name : String) (tagId : ℕ) : TagStore ε :=
  { store with aliases := store.aliases.insertNew name tagId }

/-- `ON CONFLICT (tenant_id, name) DO UPDATE SET name`, which keeps the row; the sequence moves on. -/
def upsertTag (store : TagStore ε) (name : String) (embedding : ε) : ℕ × TagStore ε :=
  match store.tags.get? name with
  | some row => (row.id, { store with nextId := store.nextId + 1 })
  | none =>
      (store.nextId,
        { store with
          tags := store.tags.upsert name ⟨store.nextId, some embedding⟩
          nextId := store.nextId + 1 })

end TagStore

/-! ## `canonicalize` -/

variable [LinearOrder S]

/-- One round of the loop of `find_best_match`. -/
def consider (threshold : S) (best : Option (ℕ × S)) (tagId : ℕ) (sim : Option S) : Option (ℕ × S) :=
  match sim with
  | none => best
  | some sim =>
      if sim ≥ threshold then
        match best with
        | some (_, bestScore) => if sim > bestScore then some (tagId, sim) else best
        | none => some (tagId, sim)
      else best

/-- `similarity` is `cosine_similarity`; it is `None` for vectors it cannot compare. -/
def findBestMatch (similarity : ε → ε → Option S) (threshold : S) (tagEmbedding : ε)
    (existingTags : List (ℕ × ε)) : Option (ℕ × S) :=
  existingTags.foldl (fun best x => consider threshold best x.1 (similarity tagEmbedding x.2)) none

/-- `TagCanonicalizer`, with what it calls. -/
structure Canonicalizer (ε S : Type) where
  toLowercase : String → String
  embed : String → ε
  similarity : ε → ε → Option S
  threshold : S

/-- The store, and the candidates of the batch. -/
structure Work (ε : Type) where
  store : TagStore ε
  existingTags : List (ℕ × ε)

def Work.start (store : TagStore ε) : Work ε := ⟨store, store.findSimilarTags⟩

/-- The ids of the candidates. -/
def Work.ids (w : Work ε) : List ℕ := w.existingTags.map Prod.fst

namespace Canonicalizer

variable (canon : Canonicalizer ε S)

def form (raw : String) : Option String := normalizeTagName canon.toLowercase raw

def bestMatch (normalized : String) (existingTags : List (ℕ × ε)) : Option (ℕ × S) :=
  findBestMatch canon.similarity canon.threshold (canon.embed normalized) existingTags

/-- A tag that matches no candidate. -/
def insert (w : Work ε) (raw normalized : String) : ℕ × Work ε :=
  let upserted := w.store.upsertTag normalized (canon.embed normalized)
  let newId := upserted.1
  (newId,
    ⟨upserted.2.insertTagAlias raw newId,
      if w.existingTags.any fun x => x.1 == newId then w.existingTags
      else w.existingTags ++ [(newId, canon.embed normalized)]⟩)

/-- One raw tag; `none` is a panic. -/
def round (w : Work ε) (raw : String) : Option (ℕ × Work ε) :=
  match canon.form raw with
  | none => none
  | some normalized =>
      match w.store.lookupAlias raw with
      | some tagId => some (tagId, w)
      | none =>
          match canon.bestMatch normalized w.existingTags with
          | some best => some (best.1, { w with store := w.store.insertTagAlias raw best.1 })
          | none => some (canon.insert w raw normalized)

/-- The ids of the raw tags, in their order. -/
def loop (w : Work ε) : List String → Option (List ℕ × Work ε)
  | [] => some ([], w)
  | raw :: rawTags =>
      (canon.round w raw).bind fun r => (loop r.2 rawTags).map fun rest => (r.1 :: rest.1, rest.2)

/-- `none` is a panic. -/
def canonicalize (store : TagStore ε) (rawTags : List String) : Option (List ℕ) :=
  (canon.loop (.start store) rawTags).map Prod.fst

end Canonicalizer

/-! ## Candidates that join -/

/-- A score is enough, and more than the best so far. -/
def Better (threshold : S) (best : Option (ℕ × S)) (sim : Option S) : Prop :=
  ∃ score, sim = some score ∧ threshold ≤ score ∧ ∀ b, best = some b → b.2 < score

theorem consider_cases (threshold : S) (best : Option (ℕ × S)) (tagId : ℕ) (sim : Option S) :
    (¬Better threshold best sim ∧ consider threshold best tagId sim = best) ∨
      (Better threshold best sim ∧ ∃ score, consider threshold best tagId sim = some (tagId, score)) := by
  cases sim with
  | none => exact .inl ⟨by simp [Better], rfl⟩
  | some score =>
    by_cases hthreshold : threshold ≤ score
    · cases best with
      | none => exact .inr ⟨⟨score, rfl, hthreshold, by simp⟩, score, if_pos hthreshold⟩
      | some best =>
        by_cases hmore : best.2 < score
        · exact .inr ⟨⟨score, rfl, hthreshold, by simpa using hmore⟩, score, by simp [consider, hthreshold, hmore]⟩
        · exact .inl ⟨by simp [Better, hmore], by simp [consider, hmore]⟩
    · exact .inl ⟨by simp [Better, hthreshold], if_neg hthreshold⟩

section
variable {similarity : ε → ε → Option S} {threshold : S} {v : ε} {existingTags : List (ℕ × ε)} {best : ℕ × S}

theorem findBestMatch_concat (x : ℕ × ε) :
    findBestMatch similarity threshold v (existingTags ++ [x]) =
      consider threshold (findBestMatch similarity threshold v existingTags) x.1 (similarity v x.2) := by
  simp only [findBestMatch, foldl_append, foldl_cons, foldl_nil]

theorem mem_of_findBestMatch (h : findBestMatch similarity threshold v existingTags = some best) :
    best.1 ∈ existingTags.map Prod.fst := by
  induction existingTags using reverseRecOn with
  | nil => cases h
  | append_singleton existingTags x ih =>
    rw [findBestMatch_concat] at h
    rw [map_append, mem_append]
    obtain ⟨-, heq⟩ | ⟨-, score, heq⟩ := consider_cases threshold (findBestMatch similarity threshold v existingTags)
      x.1 (similarity v x.2)
    · exact .inl (ih (heq ▸ h))
    · rw [heq] at h
      exact .inr (by simp [← Option.some.inj h])

end

namespace Canonicalizer

variable (canon : Canonicalizer ε S)

/-- A raw tag of this form and without an alias would now get this id. -/
def Settled (w : Work ε) (normalized : String) (id : ℕ) : Prop :=
  (∀ best, canon.bestMatch normalized w.existingTags = some best → best.1 = id) ∧
    (canon.bestMatch normalized w.existingTags = none → ∃ row, w.store.tags.get? normalized = some row ∧ row.id = id)

/-- It would get another id, and will from now on: the id is that of an earlier candidate, and only a new one can become
    the match. -/
def Strayed (w : Work ε) (normalized : String) (id : ℕ) : Prop :=
  id ∈ w.ids ∧ ∃ best, canon.bestMatch normalized w.existingTags = some best ∧ best.1 ≠ id

/-- A tag is inserted for the raw tag, joins the candidates, and is preferred to the match of the form `m`. -/
def Overtakes (w : Work ε) (raw m : String) : Prop :=
  ∃ normalized, canon.form raw = some normalized ∧ w.store.lookupAlias raw = none ∧
    canon.bestMatch normalized w.existingTags = none ∧ (canon.insert w raw normalized).1 ∉ w.ids ∧
    Better canon.threshold (canon.bestMatch m w.existingTags)
      (canon.similarity (canon.embed m) (canon.embed normalized))

/-- The tag of one of the raw tags overtakes the match of the form `m`. -/
def Overtaken (m : String) (w : Work ε) : List String → Prop
  | [] => False
  | raw :: rawTags =>
      canon.Overtakes w raw m ∨ ∃ r, canon.round w raw = some r ∧ Overtaken m r.2 rawTags

/-- Where two raw tags of one form come for the first time, and neither had an alias, no tag inserted between them
    overtakes their match. -/
def Calm (store : TagStore ε) (rawTags : List String) : Prop :=
  ∀ before first mid later after, rawTags = before ++ first :: (mid ++ later :: after) →
    first ∉ before → later ∉ before ++ first :: mid →
    store.lookupAlias first = none → store.lookupAlias later = none →
    ∀ m, canon.form first = some m → canon.form later = some m →
    ∀ done r, canon.loop (.start store) before = some done → canon.round done.2 first = some r →
      ¬canon.Overtaken m r.2 mid

/-! ### One round -/

section
variable (store : TagStore ε) (name : String) (embedding : ε)

theorem upsertTag_keeps {n : String} {row : TagRow ε} (h : store.tags.get? n = some row) :
    (store.upsertTag name embedding).2.tags.get? n = some row := by
  rw [TagStore.upsertTag]
  split
  · exact h
  next hnone =>
    rw [Keyed.get?_upsert, if_neg]
    · exact h
    · rintro rfl
      cases hnone.symm.trans h

/-- The id an insertion returns is that of the row with the name. -/
theorem upsertTag_finds : ∃ row, (store.upsertTag name embedding).2.tags.get? name = some row ∧
      row.id = (store.upsertTag name embedding).1 := by
  rw [TagStore.upsertTag]
  split
  next row hrow => exact ⟨row, hrow, rfl⟩
  · exact ⟨_, (Keyed.get?_upsert ..).trans (if_pos rfl), rfl⟩

theorem lookupAlias_upsertTag (raw : String) :
    (store.upsertTag name embedding).2.lookupAlias raw = store.lookupAlias raw := by
  rw [TagStore.upsertTag]
  split <;> rfl

end

variable {canon} {w : Work ε} {raw normalized m : String} {id : ℕ} {r : ℕ × Work ε}

omit [LinearOrder S] in
/-- The tag of an insertion joins the candidates unless it is one of them. -/
theorem insert_cases (w : Work ε) (raw normalized : String) :
    ((canon.insert w raw normalized).1 ∈ w.ids ∧
      (canon.insert w raw normalized).2.existingTags = w.existingTags) ∨
    ((canon.insert w raw normalized).1 ∉ w.ids ∧ (canon.insert w raw normalized).2.existingTags =
        w.existingTags ++ [((canon.insert w raw normalized).1, canon.embed normalized)]) := by
  simp only [insert, Work.ids]
  split
  next hany => exact .inl ⟨by simpa using hany, rfl⟩
  next hany => exact .inr ⟨by simpa using hany, rfl⟩

omit [LinearOrder S] in
theorem ids_insert (w : Work ε) (raw normalized : String) :
    (canon.insert w raw normalized).1 ∈ (canon.insert w raw normalized).2.ids ∧
      w.ids ⊆ (canon.insert w raw normalized).2.ids := by
  obtain ⟨hold, heq⟩ | ⟨-, heq⟩ := canon.insert_cases w raw normalized
  all_goals simp only [Work.ids] at *
  · rw [heq]
    exact ⟨hold, fun _ => id⟩
  · rw [heq]
    simp

theorem lookupAlias_insertTagAlias {store : TagStore ε} (hnone : store.lookupAlias raw = none) (name : String) :
    (store.insertTagAlias raw id).lookupAlias name = if name = raw then some id else store.lookupAlias name := by
  rw [TagStore.lookupAlias] at hnone
  simp only [TagStore.lookupAlias, TagStore.insertTagAlias, Keyed.get?_insertNew, hnone, getD_none]

/-- What a round can do. -/
theorem round_cases (h : canon.round w raw = some r) : ∃ normalized, canon.form raw = some normalized ∧
    (w.store.lookupAlias raw = some r.1 ∧ r.2 = w ∨
      w.store.lookupAlias raw = none ∧
        ((∃ best, canon.bestMatch normalized w.existingTags = some best ∧
            r = (best.1, { w with store := w.store.insertTagAlias raw best.1 })) ∨
          canon.bestMatch normalized w.existingTags = none ∧ r = canon.insert w raw normalized)) := by
  unfold round at h
  split at h
  · cases h
  next normalized hform =>
    refine ⟨normalized, hform, ?_⟩
    split at h
    next hit =>
      cases h
      exact .inl ⟨hit, rfl⟩
    next hnone =>
      refine .inr ⟨hnone, ?_⟩
      split at h
      next best hbest =>
        cases h
        exact .inl ⟨best, hbest, rfl⟩
      next hbest =>
        cases h
        exact .inr ⟨hbest, rfl⟩

theorem round_eq_none_iff (w : Work ε) (raw : String) : canon.round w raw = none ↔ canon.form raw = none := by
  unfold round
  split
  next hform => simp [hform]
  next normalized hform =>
    rw [hform]
    split
    · simp
    · split <;> simp

section
variable (hr : canon.round w raw = some r)

include hr

theorem lookupAlias_round (name : String) :
    r.2.store.lookupAlias name = if name = raw then some r.1 else w.store.lookupAlias name := by
  obtain ⟨normalized, -, ⟨hit, hw⟩ | ⟨hnone, ⟨best, -, rfl⟩ | ⟨-, rfl⟩⟩⟩ := round_cases hr
  · rw [hw]
    split
    next heq => rw [heq, hit]
    · rfl
  · exact lookupAlias_insertTagAlias hnone name
  · rw [← lookupAlias_upsertTag w.store normalized (canon.embed normalized)] at hnone ⊢
    exact lookupAlias_insertTagAlias hnone name

theorem lookupAlias_round_of_some {name : String} (h : w.store.lookupAlias name = some id) :
    r.2.store.lookupAlias name = some id := by
  rw [lookupAlias_round hr, ← h]
  split
  next heq =>
    obtain ⟨-, -, ⟨hit, -⟩ | ⟨hnone, -⟩⟩ := round_cases hr
    · rw [heq, hit]
    · cases hnone.symm.trans (heq ▸ h)
  · rfl

/-- A raw tag without an alias gets a candidate. -/
theorem ids_round : w.ids ⊆ r.2.ids ∧ (w.store.lookupAlias raw = none → r.1 ∈ r.2.ids) := by
  obtain ⟨normalized, -, ⟨hit, hw⟩ | ⟨-, ⟨best, hbest, rfl⟩ | ⟨-, rfl⟩⟩⟩ := round_cases hr
  · exact ⟨hw ▸ fun _ => id, by simp [hit]⟩
  · have hid : best.1 ∈ w.ids := mem_of_findBestMatch hbest
    exact ⟨fun _ => id, fun _ => hid⟩
  · exact ⟨(ids_insert w raw normalized).2, fun _ => (ids_insert w raw normalized).1⟩

theorem tags_round {n : String} {row : TagRow ε} (h : w.store.tags.get? n = some row) :
    r.2.store.tags.get? n = some row := by
  obtain ⟨normalized, -, ⟨-, hw⟩ | ⟨-, ⟨best, -, rfl⟩ | ⟨-, rfl⟩⟩⟩ := round_cases hr
  · rwa [hw]
  · exact h
  · exact upsertTag_keeps w.store normalized _ h

/-- A tag that overtakes becomes the match; any other makes no difference. -/
theorem bestMatch_round (m : String) :
    (¬canon.Overtakes w raw m ∧ canon.bestMatch m r.2.existingTags = canon.bestMatch m w.existingTags) ∨
    (canon.Overtakes w raw m ∧ r.1 ∉ w.ids ∧ ∃ score, canon.bestMatch m r.2.existingTags = some (r.1, score)) := by
  obtain ⟨normalized, hform, ⟨hit, hw⟩ | ⟨hnone, ⟨best, hbest, rfl⟩ | ⟨hbest, rfl⟩⟩⟩ := round_cases hr
  · exact .inl ⟨by simp [Overtakes, hit], by rw [hw]⟩
  · exact .inl ⟨by simp [Overtakes, hform, hbest], rfl⟩
  · simp only [Overtakes, hform, hnone, hbest, true_and, Option.some.injEq, exists_eq_left']
    obtain ⟨hold, heq⟩ | ⟨hjoins, heq⟩ := canon.insert_cases w raw normalized
    · exact .inl ⟨fun hover => hover.1 hold, by rw [heq]⟩
    · rw [heq, and_iff_right hjoins, bestMatch, bestMatch, findBestMatch_concat]
      exact (consider_cases ..).imp_right fun hbetter => ⟨hbetter.1, hjoins, hbetter.2⟩

theorem Settled.round (h : canon.Settled w m id) (hquiet : ¬canon.Overtakes w raw m) : canon.Settled r.2 m id := by
  have hbest := ((bestMatch_round hr m).resolve_right fun hover => hquiet hover.1).2
  refine ⟨fun best hb => h.1 best (hbest ▸ hb), fun hnone => ?_⟩
  obtain ⟨row, hrow, hid⟩ := h.2 (hbest ▸ hnone)
  exact ⟨row, tags_round hr hrow, hid⟩

/-- A tag that overtakes leads a form astray. -/
theorem strayed_of_overtakes (hid : id ∈ w.ids) (hover : canon.Overtakes w raw m) : canon.Strayed r.2 m id := by
  obtain ⟨hquiet, -⟩ | ⟨-, hjoins, score, hnew⟩ := bestMatch_round hr m
  · exact absurd hover hquiet
  · exact ⟨(ids_round hr).1 hid, _, hnew, fun heq => hjoins (heq ▸ hid)⟩

theorem Strayed.round (h : canon.Strayed w m id) : canon.Strayed r.2 m id := by
  obtain ⟨-, hsame⟩ | ⟨hover, -⟩ := bestMatch_round hr m
  · exact ⟨(ids_round hr).1 h.1, by simpa only [hsame] using h.2⟩
  · exact strayed_of_overtakes hr h.1 hover

section
variable (hnone : w.store.lookupAlias raw = none) (hform : canon.form raw = some m)

include hnone hform

/-- The id that a raw tag gets is settled for its form. -/
theorem settled_round : canon.Settled r.2 m r.1 := by
  obtain ⟨n, hn, ⟨hit, -⟩ | ⟨-, ⟨best, hbest, rfl⟩ | ⟨hbest, rfl⟩⟩⟩ := round_cases hr
  · cases hnone.symm.trans hit
  all_goals cases hform.symm.trans hn
  · refine ⟨fun b hb => ?_, fun hb => ?_⟩
    · rw [Option.some.inj (hbest.symm.trans hb)]
    · cases hbest.symm.trans hb
  · refine ⟨fun best hb => ?_, fun _ => upsertTag_finds w.store m _⟩
    obtain ⟨-, hsame⟩ | ⟨-, -, score, hnew⟩ := bestMatch_round hr m
    · cases (hbest.symm.trans hsame.symm).trans hb
    · rw [← Option.some.inj (hnew.symm.trans hb)]

theorem Settled.id_eq (h : canon.Settled w m id) : r.1 = id := by
  obtain ⟨n, hn, ⟨hit, -⟩ | ⟨-, ⟨best, hbest, rfl⟩ | ⟨hbest, rfl⟩⟩⟩ := round_cases hr
  · cases hnone.symm.trans hit
  all_goals cases hform.symm.trans hn
  · exact h.1 best hbest
  · obtain ⟨row, hrow, hid⟩ := h.2 hbest
    simp only [insert, TagStore.upsertTag, hrow, hid]

theorem Strayed.id_ne (h : canon.Strayed w m id) : r.1 ≠ id := by
  obtain ⟨-, best, hmatch, hne⟩ := h
  obtain ⟨n, hn, ⟨hit, -⟩ | ⟨-, ⟨best', hbest, rfl⟩ | ⟨hbest, rfl⟩⟩⟩ := round_cases hr
  · cases hnone.symm.trans hit
  all_goals
    cases hform.symm.trans hn
    cases hmatch.symm.trans hbest
  exact hne

end

end

/-! ### A batch -/

variable {rawTags before after : List String} {done : List ℕ × Work ε}

theorem loop_eq_none_iff (w : Work ε) (rawTags : List String) :
    canon.loop w rawTags = none ↔ ∃ raw ∈ rawTags, canon.form raw = none := by
  induction rawTags generalizing w with
  | nil => simp [loop]
  | cons raw rawTags ih =>
    rw [exists_mem_cons_iff, ← canon.round_eq_none_iff w, loop]
    cases hround : canon.round w raw with
    | none => simp
    | some r => simp [ih r.2]

theorem loop_cons (h : canon.loop w (raw :: rawTags) = some done) : ∃ r rest, canon.round w raw = some r ∧
    canon.loop r.2 rawTags = some rest ∧ done = (r.1 :: rest.1, rest.2) := by
  obtain ⟨r, hr, hmap⟩ := bind_eq_some_iff.1 h
  obtain ⟨rest, hrest, rfl⟩ := map_eq_some_iff.1 hmap
  exact ⟨r, rest, hr, hrest, rfl⟩

theorem loop_append (h : canon.loop w (before ++ after) = some done) : ∃ first rest,
    canon.loop w before = some first ∧ canon.loop first.2 after = some rest ∧
      done = (first.1 ++ rest.1, rest.2) := by
  induction before generalizing w done with
  | nil => exact ⟨([], w), done, rfl, h, rfl⟩
  | cons raw before ih =>
    obtain ⟨r, rest, hr, hrest, rfl⟩ := loop_cons h
    obtain ⟨first, last, hfirst, hlast, rfl⟩ := ih hrest
    exact ⟨(r.1 :: first.1, first.2), last, by simp only [loop, hr, hfirst, bind_some, map_some], hlast, rfl⟩

theorem length_loop (h : canon.loop w rawTags = some done) : done.1.length = rawTags.length := by
  induction rawTags generalizing w done with
  | nil => rw [← Option.some.inj h, length_nil, length_nil]
  | cons raw rawTags ih =>
    obtain ⟨r, rest, -, hrest, rfl⟩ := loop_cons h
    rw [length_cons, length_cons, ih hrest]

theorem lookupAlias_loop_of_some (h : canon.loop w rawTags = some done) (hsome : w.store.lookupAlias raw = some id) :
    done.2.store.lookupAlias raw = some id := by
  induction rawTags generalizing w done with
  | nil =>
    cases h
    exact hsome
  | cons head rawTags ih =>
    obtain ⟨r, rest, hr, hrest, rfl⟩ := loop_cons h
    have hlast := ih hrest (lookupAlias_round_of_some hr hsome)
    exact hlast

theorem lookupAlias_loop_of_not_mem (h : canon.loop w rawTags = some done) (hraw : raw ∉ rawTags) :
    done.2.store.lookupAlias raw = w.store.lookupAlias raw := by
  induction rawTags generalizing w done with
  | nil => cases h; rfl
  | cons head rawTags ih =>
    obtain ⟨r, rest, hr, hrest, rfl⟩ := loop_cons h
    rw [mem_cons, not_or] at hraw
    exact (ih hrest hraw.2).trans ((lookupAlias_round hr raw).trans (if_neg hraw.1))

/-- Every raw tag has the id it got as its alias in the end. -/
theorem lookupAlias_loop (h : canon.loop w rawTags = some done) :
    ∀ p ∈ rawTags.zip done.1, done.2.store.lookupAlias p.1 = some p.2 := by
  induction rawTags generalizing w done with
  | nil => simp
  | cons raw rawTags ih =>
    obtain ⟨r, rest, hr, hrest, rfl⟩ := loop_cons h
    have hlast := lookupAlias_loop_of_some hrest ((lookupAlias_round hr raw).trans (if_pos rfl))
    rw [zip_cons_cons, forall_mem_cons]
    exact ⟨hlast, ih hrest⟩

theorem Strayed.loop (h : canon.Strayed w m id) (hloop : canon.loop w rawTags = some done) :
    canon.Strayed done.2 m id := by
  induction rawTags generalizing w done with
  | nil =>
    cases hloop
    exact h
  | cons raw rawTags ih =>
    obtain ⟨r, rest, hr, hrest, rfl⟩ := loop_cons hloop
    have hlast := ih (h.round hr) hrest
    exact hlast

/-- What is settled stays so until a tag overtakes, and is astray from then on. -/
theorem Settled.loop (h : canon.Settled w m id) (hid : id ∈ w.ids) (hloop : canon.loop w rawTags = some done) :
    (¬canon.Overtaken m w rawTags ∧ canon.Settled done.2 m id) ∨
      (canon.Overtaken m w rawTags ∧ canon.Strayed done.2 m id) := by
  induction rawTags generalizing w done with
  | nil =>
    cases hloop
    exact .inl ⟨fun hover => hover, h⟩
  | cons raw rawTags ih =>
    obtain ⟨r, rest, hr, hrest, rfl⟩ := loop_cons hloop
    simp only [Overtaken, hr, Option.some.injEq, exists_eq_left']
    by_cases hover : canon.Overtakes w raw m
    · exact .inr ⟨.inl hover, (strayed_of_overtakes hr hid hover).loop hrest⟩
    · rw [or_iff_right hover]
      exact ih (h.round hr hover) ((ids_round hr).1 hid) hrest

section
variable {store : TagStore ε} {first later : String} {mid : List String}

/-- Two raw tags of one form, at their first turns. -/
theorem alias_eq_iff (hloop : canon.loop (.start store) (before ++ first :: (mid ++ later :: after)) = some done)
    (hfirst : first ∉ before) (hlater : later ∉ before ++ first :: mid)
    (hfirstnone : store.lookupAlias first = none) (hlaternone : store.lookupAlias later = none)
    (hm : canon.form first = some m) (hform : canon.form later = some m) :
    ∃ front r, canon.loop (.start store) before = some front ∧ canon.round front.2 first = some r ∧
      (done.2.store.lookupAlias first = done.2.store.lookupAlias later ↔ ¬canon.Overtaken m r.2 mid) := by
  obtain ⟨front, rest, hfront, hrest, rfl⟩ := loop_append hloop
  obtain ⟨r, last, hr, hlast, rfl⟩ := loop_cons hrest
  obtain ⟨middle, end', hmiddle, hend, rfl⟩ := loop_append hlast
  obtain ⟨q, tail, hq, htail, rfl⟩ := loop_cons hend
  refine ⟨front, r, hfront, hr, ?_⟩
  simp only [mem_append, mem_cons, not_or] at hlater
  have hnone : front.2.store.lookupAlias first = none := (lookupAlias_loop_of_not_mem hfront hfirst).trans hfirstnone
  have hnone' : middle.2.store.lookupAlias later = none := by
    rw [lookupAlias_loop_of_not_mem hmiddle hlater.2.2, lookupAlias_round hr, if_neg hlater.2.1,
      lookupAlias_loop_of_not_mem hfront hlater.1]
    exact hlaternone
  have hfirstid := lookupAlias_loop_of_some hlast ((lookupAlias_round hr first).trans (if_pos rfl))
  have hlaterid := lookupAlias_loop_of_some htail ((lookupAlias_round hq later).trans (if_pos rfl))
  rw [hfirstid, hlaterid, Option.some.injEq]
  obtain ⟨hquiet, hsettled⟩ | ⟨hover, hstrayed⟩ :=
    (settled_round hr hnone hm).loop ((ids_round hr).2 hnone) hmiddle
  · exact iff_of_true (hsettled.id_eq hq hnone' hform).symm hquiet
  · exact iff_of_false (hstrayed.id_ne hq hnone' hform).symm (not_not.2 hover)

variable (hloop : canon.loop (.start store) rawTags = some done)

include hloop

/-- Raw tags of one form that had no alias have one in the end. -/
theorem calm_iff : canon.Calm store rawTags ↔ ∀ first ∈ rawTags, ∀ later ∈ rawTags,
    store.lookupAlias first = none → store.lookupAlias later = none → canon.form first = canon.form later →
      done.2.store.lookupAlias first = done.2.store.lookupAlias later := by
  constructor
  · intro hcalm first hfirst later hlater hnone hnone' hform
    obtain ⟨m, hm⟩ : ∃ m, canon.form first = some m := by
      refine ne_none_iff_exists'.1 fun hpanic => ?_
      rw [(loop_eq_none_iff _ _).2 ⟨first, hfirst, hpanic⟩] at hloop
      cases hloop
    -- the one that comes first
    obtain ⟨before, after, rfl, hbefore⟩ := eq_append_cons_of_mem hfirst
    by_cases hearlier : later ∈ before
    · obtain ⟨before, mid, rfl, hbefore'⟩ := eq_append_cons_of_mem hearlier
      rw [append_assoc, cons_append] at hloop hcalm
      obtain ⟨front, r, hfront, hr, hiff⟩ :=
        alias_eq_iff hloop hbefore' hbefore hnone' hnone (hform ▸ hm) hm
      exact (hiff.2 (hcalm _ _ _ _ _ rfl hbefore' hbefore hnone' hnone m (hform ▸ hm) hm front r hfront hr)).symm
    · by_cases hsame : later = first
      · rw [hsame]
      · have hafter : later ∈ after := by simpa [hearlier, hsame] using hlater
        obtain ⟨mid, after, rfl, hmid⟩ := eq_append_cons_of_mem hafter
        have hnew : later ∉ before ++ first :: mid := by simp [hearlier, hsame, hmid]
        obtain ⟨front, r, hfront, hr, hiff⟩ := alias_eq_iff hloop hbefore hnew hnone hnone' hm (hform ▸ hm)
        exact hiff.2 (hcalm _ _ _ _ _ rfl hbefore hnew hnone hnone' m hm (hform ▸ hm) front r hfront hr)
  · rintro hsame before first mid later after rfl hfirst hlater hnone hnone' m hm hform front r hfront hr
    obtain ⟨front', r', hfront', hr', hiff⟩ := alias_eq_iff hloop hfirst hlater hnone hnone' hm hform
    cases hfront.symm.trans hfront'
    cases hr.symm.trans hr'
    exact hiff.1 (hsame first (by simp) later (by simp) hnone hnone' (hm.trans hform.symm))

/-- The same of the ids that they got. -/
theorem same_iff : (∀ p ∈ rawTags.zip done.1, ∀ q ∈ rawTags.zip done.1, store.lookupAlias p.1 = none →
      store.lookupAlias q.1 = none → canon.form p.1 = canon.form q.1 → p.2 = q.2) ↔ canon.Calm store rawTags := by
  have hnames : (rawTags.zip done.1).map Prod.fst = rawTags := map_fst_zip (length_loop hloop).ge
  have hids := lookupAlias_loop hloop
  rw [calm_iff hloop]
  constructor
  · intro hsame first hfirst later hlater hnone hnone' hform
    rw [← hnames] at hfirst hlater
    obtain ⟨p, hp, rfl⟩ := mem_map.1 hfirst
    obtain ⟨q, hq, rfl⟩ := mem_map.1 hlater
    rw [hids p hp, hids q hq, hsame p hp q hq hnone hnone' hform]
  · intro hsame p hp q hq hnone hnone' hform
    have heq := hsame p.1 (of_mem_zip hp).1 q.1 (of_mem_zip hq).1 hnone hnone' hform
    rw [hids p hp, hids q hq] at heq
    exact Option.some.inj heq

end

end Canonicalizer

/-- For every tenant, batch, embedding and similarity. The batch panics iff a word of a raw tag ends, before a suffix,
    in a doubled character of more than one byte. Otherwise every raw tag gets one id, in the order of the batch,
    whatever comes after it; and raw tags of one form that had no alias get the same id iff no tag inserted between two
    of them overtakes their match. -/
theorem canonicalize_converges_iff (canon : Canonicalizer ε S) (store : TagStore ε) (rawTags : List String) :
    (canon.canonicalize store rawTags = none ↔ ∃ raw ∈ rawTags, ∃ word ∈ words canon.toLowercase raw, Cut word) ∧
    ∀ ids, canon.canonicalize store rawTags = some ids →
      ids.length = rawTags.length ∧
      (∀ before after, rawTags = before ++ after →
        canon.canonicalize store before = some (ids.take before.length)) ∧
      ((∀ p ∈ rawTags.zip ids, ∀ q ∈ rawTags.zip ids, store.lookupAlias p.1 = none → store.lookupAlias q.1 = none →
        canon.form p.1 = canon.form q.1 → p.2 = q.2) ↔ canon.Calm store rawTags) := by
  constructor
  · rw [Canonicalizer.canonicalize, map_eq_none_iff, Canonicalizer.loop_eq_none_iff]
    simp only [Canonicalizer.form, normalizeTagName_eq_none_iff]
  · intro ids hids
    obtain ⟨done, hdone, rfl⟩ := map_eq_some_iff.1 hids
    refine ⟨Canonicalizer.length_loop hdone, ?_, Canonicalizer.same_iff hdone⟩
    rintro before after rfl
    obtain ⟨first, rest, hfirst, -, rfl⟩ := Canonicalizer.loop_append hdone
    rw [Canonicalizer.canonicalize, hfirst, map_some, ← Canonicalizer.length_loop hfirst, take_left]

end

/-- Three directions to embed into. -/
private inductive Direction
  | paper
  | invoice
  | receipt
deriving DecidableEq

/-- Percentages; every vector is most similar to itself. -/
private def percent : Direction → Direction → ℕ
  | .paper, .invoice => 86
  | .invoice, .paper => 86
  | .paper, .receipt => 80
  | .receipt, .paper => 80
  | .invoice, .receipt => 90
  | .receipt, .invoice => 90
  | _, _ => 100

private def letters : Canonicalizer Direction ℕ where
  toLowercase s := String.ofList (s.toList.map Char.toLower)
  embed name := if name = "invoice" then .invoice else if name = "receipt" then .receipt else .paper
  similarity v w := some (percent v w)
  threshold := 85

private def onlyPapers : TagStore Direction := ⟨Keyed.empty.upsert "paper" ⟨1, some .paper⟩, 2, .empty⟩

/-- Another tag has the embedding of papers, under the name that `Receipts` is inserted by: it is a candidate already,
    so none joins, and the batch is calm. -/
private def stalePapers : TagStore Direction :=
  ⟨(Keyed.empty.upsert "paper" ⟨1, some .paper⟩).upsert "receipt" ⟨5, some .paper⟩, 6, .empty⟩

theorem canonicalize_converges_stale :
    letters.canonicalize stalePapers ["Invoices", "Receipts", "invoice"] = some [1, 5, 1] ∧
      letters.Calm stalePapers ["Invoices", "Receipts", "invoice"] := by
  have hids : letters.canonicalize stalePapers ["Invoices", "Receipts", "invoice"] = some [1, 5, 1] := by
    decide +kernel
  obtain ⟨-, hsome⟩ := canonicalize_converges_iff letters stalePapers ["Invoices", "Receipts", "invoice"]
  exact ⟨hids, (hsome _ hids).2.2.1 (by decide +kernel)⟩

/-- `Invoices` is merged into the tag for papers; `Receipts` is inserted as a new tag; `invoice`, of the same
    form as the first, is more similar to the new one. And a name whose stem ends in a doubled character
    of more than one byte makes the whole batch panic. -/
theorem canonicalize_diverges :
    (∀ v w, letters.similarity v w = letters.similarity w v) ∧ (∀ v w, percent v w ≤ percent v v) ∧
      (∀ v, letters.threshold ≤ percent v v) ∧ letters.form "Invoices" = letters.form "invoice" ∧
      onlyPapers.lookupAlias "Invoices" = none ∧ onlyPapers.lookupAlias "invoice" = none ∧
      letters.canonicalize onlyPapers ["Invoices", "Receipts", "invoice"] = some [1, 2, 2] ∧
      letters.canonicalize onlyPapers ["aééing"] = none := by
  refine ⟨?_, ?_, ?_, by decide +kernel⟩
  · intro v w
    cases v <;> cases w <;> rfl
  · intro v w
    cases v <;> cases w <;> decide
  · intro v
    cases v <;> decide

end Tagsmaxxing.TagCanonicalizer
