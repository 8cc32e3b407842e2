import Tagsmaxxing.Extract.MarkdownScan

/-! # What `strip_markdown` loses

`md_skip_parens` is meant for the destination of a link and reads on to a closing parenthesis wherever that is, or
to the end of the text. So the text is kept when nothing it passes over is a letter or digit from outside a
destination, as when every parenthesis directly after a `]` is closed on its line. -/

namespace Tagsmaxxing.Text.Markdown

open List

variable {isAlphanumeric : Char → Bool}

/-! ## Destinations -/

/-- The characters of a group of parentheses, up to the one that closes it on the same line. -/
def groupLength (depth : ℕ) : List Char → Option ℕ
  | [] => none
  | c :: cs =>
      if isEol c then none
      else if c = '(' then (groupLength (depth + 1) cs).map (· + 1)
      else if c = ')' then if depth - 1 = 0 then some 1 else (groupLength (depth - 1) cs).map (· + 1)
      else (groupLength depth cs).map (· + 1)

/-- For each character whether it is outside destinations, `covered` more characters being within one. -/
def outsideFrom (afterBracket : Bool) : ℕ → List Char → List Bool
  | _, [] => []
  | covered + 1, _ :: cs => false :: outsideFrom false covered cs
  | 0, c :: cs =>
      match if afterBracket && c == '(' then groupLength 1 cs else none with
      | some covered => false :: outsideFrom false covered cs
      | none => true :: outsideFrom (c == ']') 0 cs

/-- For each character whether it is outside destinations: a destination is a group of parentheses directly after a
`]` that closes on the same line. -/
def outside (text : List Char) : List Bool := outsideFrom false 0 text

example : outside "[a](b) (c".toList =
    [true, true, true, false, false, false, true, true, true] := by decide +kernel

theorem length_outsideFrom (text : List Char) (afterBracket : Bool) (covered : ℕ) :
    (outsideFrom afterBracket covered text).length = text.length := by
  induction text generalizing afterBracket covered with
  | nil => simp only [outsideFrom, length_nil]
  | cons c cs ih =>
    cases covered with
    | succ covered => rw [outsideFrom, length_cons, ih, length_cons]
    | zero =>
      rw [outsideFrom]
      split
      all_goals rw [length_cons, ih, length_cons]

theorem length_outside (text : List Char) : (outside text).length = text.length := length_outsideFrom text false 0

/-! ## Groups of parentheses -/

variable {cs : List Char} {depth n covered : ℕ} {text : List Char}

/-- A group closes with its next character, or after it at some depth. -/
theorem groupLength_cons {c : Char} (hdepth : 0 < depth) (h : groupLength depth (c :: cs) = some n) :
    n = 1 ∨ ∃ depth' n', 0 < depth' ∧ groupLength depth' cs = some n' ∧ n = n' + 1 := by
  rw [groupLength] at h
  split_ifs at h with heol hopen hclose hone
  · obtain ⟨n', hn', rfl⟩ := Option.map_eq_some_iff.1 h
    exact .inr ⟨depth + 1, n', Nat.succ_pos depth, hn', rfl⟩
  · exact .inl (Option.some.inj h).symm
  · obtain ⟨n', hn', rfl⟩ := Option.map_eq_some_iff.1 h
    exact .inr ⟨depth - 1, n', Nat.pos_of_ne_zero hone, hn', rfl⟩
  · obtain ⟨n', hn', rfl⟩ := Option.map_eq_some_iff.1 h
    exact .inr ⟨depth, n', hdepth, hn', rfl⟩

theorem groupLength_bounds (hdepth : 0 < depth) (h : groupLength depth cs = some n) :
    0 < n ∧ n ≤ cs.length := by
  induction cs generalizing depth n with
  | nil => cases h
  | cons c cs ih =>
    rw [length_cons]
    rcases groupLength_cons hdepth h with rfl | ⟨depth', n', hdepth', hn', rfl⟩
    · omega
    · have hle := ih hdepth' hn'
      omega

theorem groupLength_lt {depth' n' : ℕ} (hdepth : 0 < depth) (hlt : depth < depth')
    (h : groupLength depth cs = some n) (h' : groupLength depth' cs = some n') : n < n' := by
  induction cs generalizing depth depth' n n' with
  | nil => cases h
  | cons c cs ih =>
    -- both go on, at their next depths
    have hnext : ∀ {d d'}, 0 < d → d < d' → (groupLength d cs).map (· + 1) = some n →
        (groupLength d' cs).map (· + 1) = some n' → n < n' := by
      intro d d' hd hlt h h'
      obtain ⟨m, hm, rfl⟩ := Option.map_eq_some_iff.1 h
      obtain ⟨m', hm', rfl⟩ := Option.map_eq_some_iff.1 h'
      exact Nat.succ_lt_succ (ih hd hlt hm hm')
    rw [groupLength] at h h'
    split_ifs at h h' with heol hopen hclose hone hone'
    · exact hnext (Nat.succ_pos depth) (Nat.succ_lt_succ hlt) h h'
    · omega
    · obtain ⟨m', hm', rfl⟩ := Option.map_eq_some_iff.1 h'
      cases h
      exact Nat.succ_lt_succ (groupLength_bounds (Nat.pos_of_ne_zero hone') hm').1
    · omega
    · exact hnext (Nat.pos_of_ne_zero hone) (by omega) h h'
    · exact hnext hdepth hlt h h'

/-- A group that closes on its line is what `md_skip_parens` skips. -/
theorem mdSkipParens_of_groupLength (h : groupLength depth cs = some n) :
    mdSkipParens depth cs = cs.drop n := by
  induction cs generalizing depth n with
  | nil => cases h
  | cons c cs ih =>
    rw [groupLength] at h
    rw [mdSkipParens]
    split_ifs at h ⊢ with heol hopen hclose hone
    · obtain ⟨n', hn', rfl⟩ := Option.map_eq_some_iff.1 h
      exact ih hn'
    · cases h
      rfl
    · obtain ⟨n', hn', rfl⟩ := Option.map_eq_some_iff.1 h
      exact ih hn'
    · obtain ⟨n', hn', rfl⟩ := Option.map_eq_some_iff.1 h
      exact ih hn'

theorem getElem?_outsideFrom_of_lt (afterBracket : Bool) {i : ℕ} (hcovered : i < covered)
    (hi : i < text.length) : (outsideFrom afterBracket covered text)[i]? = some false := by
  induction text generalizing afterBracket covered i with
  | nil => exact absurd hi (Nat.not_lt_zero i)
  | cons c cs ih =>
    obtain ⟨covered, rfl⟩ := Nat.exists_eq_succ_of_ne_zero (Nat.ne_zero_of_lt hcovered)
    rw [outsideFrom]
    cases i with
    | zero => rfl
    | succ i =>
      rw [getElem?_cons_succ]
      exact ih false (Nat.lt_of_succ_lt_succ hcovered) (Nat.lt_of_succ_lt_succ hi)

theorem groupLength_bracket_open (depth : ℕ) (after : List Char) :
    groupLength depth (']' :: '(' :: after) = (groupLength (depth + 1) after).map (· + 2) := by
  have hopen : groupLength depth ('(' :: after) = (groupLength (depth + 1) after).map (· + 1) := rfl
  have hbracket : groupLength depth (']' :: '(' :: after) = (groupLength depth ('(' :: after)).map (· + 1) := rfl
  rw [hbracket, hopen, Option.map_map]
  rfl

variable {after : List Char}

theorem outsideFrom_open (h : groupLength 1 after = some n) :
    outsideFrom true 0 ('(' :: after) = false :: outsideFrom false n after := by
  simp only [outsideFrom, BEq.rfl, Bool.and_self, if_true, h]

theorem outsideFrom_bracket (afterBracket : Bool) (cs : List Char) :
    outsideFrom afterBracket 0 (']' :: cs) = true :: outsideFrom true 0 cs := by
  have hne : (afterBracket && ']' == '(') = false := Bool.and_false afterBracket
  simp only [outsideFrom, hne, Bool.false_eq_true, if_false, BEq.rfl]

section

variable (hgroup : groupLength 1 after = some n) {i : ℕ}

include hgroup

theorem getElem?_outsideFrom_bracket (hi : i ≤ n) (afterBracket : Bool) :
    (outsideFrom afterBracket 0 (']' :: '(' :: after))[1 + i]? = some false := by
  rw [outsideFrom_bracket, outsideFrom_open hgroup, Nat.add_comm, getElem?_cons_succ]
  cases i with
  | zero => rfl
  | succ i =>
    have hn := (groupLength_bounds Nat.one_pos hgroup).2
    rw [getElem?_cons_succ]
    exact getElem?_outsideFrom_of_lt false hi (Nat.lt_of_lt_of_le hi hn)

/-- Within a destination, a group directly after a `]` lies before its end. -/
theorem getElem?_outsideFrom_nested
    (hi : i ≤ n) (hdepth : 0 < depth) (hcovered : groupLength depth (']' :: '(' :: after) = some covered)
    (afterBracket : Bool) : (outsideFrom afterBracket covered (']' :: '(' :: after))[1 + i]? = some false := by
  rw [groupLength_bracket_open] at hcovered
  obtain ⟨m, hm, rfl⟩ := Option.map_eq_some_iff.1 hcovered
  have hlt := groupLength_lt Nat.one_pos (Nat.succ_lt_succ hdepth) hgroup hm
  have hn := (groupLength_bounds Nat.one_pos hgroup).2
  refine getElem?_outsideFrom_of_lt afterBracket (by omega) ?_
  rw [length_cons, length_cons]
  omega

/-- Wherever it stands, a group directly after a `]` is within a destination: the induction is on what comes before,
with the end of the destination that is open there, if one is. -/
theorem getElem?_outsideFrom_group {before : List Char} (hi : i ≤ n) (afterBracket : Bool)
    (hcovered : covered = 0 ∨ ∃ depth, 0 < depth ∧ groupLength depth (before ++ ']' :: '(' :: after) = some covered) :
    (outsideFrom afterBracket covered (before ++ ']' :: '(' :: after))[before.length + 1 + i]? = some false := by
  induction before generalizing afterBracket covered with
  | nil =>
    rw [nil_append] at hcovered ⊢
    rw [length_nil, Nat.zero_add]
    rcases hcovered with rfl | ⟨depth, hdepth, hlength⟩
    · exact getElem?_outsideFrom_bracket hgroup hi afterBracket
    · exact getElem?_outsideFrom_nested hgroup hi hdepth hlength afterBracket
  | cons c before ih =>
    have hindex : (c :: before).length + 1 + i = before.length + 1 + i + 1 := by
      rw [length_cons]
      omega
    rw [cons_append] at hcovered ⊢
    rcases hcovered with rfl | ⟨depth, hdepth, hlength⟩
    · rw [outsideFrom, hindex]
      split
      next k hk =>
        split_ifs at hk
        exact ih false (.inr ⟨1, Nat.one_pos, hk⟩)
      next => exact ih _ (.inl rfl)
    · rcases groupLength_cons hdepth hlength with rfl | ⟨depth', k, hdepth', hk, rfl⟩
      · rw [outsideFrom, hindex]
        exact ih false (.inl rfl)
      · rw [outsideFrom, hindex]
        exact ih false (.inr ⟨depth', hdepth', hk⟩)

end

/-! ## When the text is kept -/

/-- The letters and digits of the text outside destinations. -/
def proseOf (isAlphanumeric : Char → Bool) (text : List Char) : List Char :=
  ((text.zip (outside text)).filter fun x => isAlphanumeric x.1 && x.2).map Prod.fst

/-- Each character of the text, with whether it is skipped and whether it is outside destinations. -/
def marks (isAlphanumeric : Char → Bool) (text : List Char) : List ((Char × Bool) × Bool) :=
  (skipScan isAlphanumeric text).zip (outside text)

/-- No letter or digit outside destinations is skipped. -/
def Lossless (isAlphanumeric : Char → Bool) (text : List Char) : Prop :=
  ∀ x ∈ marks isAlphanumeric text, isAlphanumeric x.1.1 = true → x.2 = true → x.1.2 = false

/-- No letter or digit of a destination is shown, as it would be within an emphasis. -/
def HidesDestinations (isAlphanumeric : Char → Bool) (text : List Char) : Prop :=
  ∀ x ∈ marks isAlphanumeric text, isAlphanumeric x.1.1 = true → x.1.2 = false → x.2 = true

instance (text : List Char) : Decidable (Lossless isAlphanumeric text) :=
  inferInstanceAs (Decidable (∀ x ∈ marks isAlphanumeric text,
    isAlphanumeric x.1.1 = true → x.2 = true → x.1.2 = false))

instance (text : List Char) : Decidable (HidesDestinations isAlphanumeric text) :=
  inferInstanceAs (Decidable (∀ x ∈ marks isAlphanumeric text,
    isAlphanumeric x.1.1 = true → x.1.2 = false → x.2 = true))

/-- The letters and digits outside destinations come through, in order. -/
def KeepsProse (isAlphanumeric : Char → Bool) (text : List Char) : Prop :=
  List.Sublist (proseOf isAlphanumeric text) ((stripMarkdown isAlphanumeric text).filter isAlphanumeric)

/-! ## Texts that close their parentheses -/

/-- Every parenthesis directly after a `]` is closed on its line. -/
def ClosesParens (text : List Char) : Prop :=
  ∀ before after, text = before ++ ']' :: '(' :: after → (groupLength 1 after).isSome = true

theorem mdCollectUntil_closed (depth : ℕ) (cs : List Char) :
    (mdCollectUntil ']' depth cs).2 = [] ∨ ∃ read, cs = read ++ ']' :: (mdCollectUntil ']' depth cs).2 := by
  induction cs generalizing depth with
  | nil => exact .inl rfl
  | cons c cs ih =>
    have hcons : ∀ {depth'}, ((mdCollectUntil ']' depth' cs).2 = [] ∨
        ∃ read, c :: cs = read ++ ']' :: (mdCollectUntil ']' depth' cs).2) := by
      intro depth'
      refine (ih depth').imp_right ?_
      rintro ⟨read, hread⟩
      exact ⟨c :: read, congrArg (c :: ·) hread⟩
    rw [mdCollectUntil]
    split_ifs with hopening hclosing
    · exact hcons
    · exact .inr ⟨[], congrArg (· :: cs) hclosing⟩
    · exact hcons
    · exact hcons

theorem link_next (cs : List Char) :
    (Round.link (mdCollectUntil ']' 1 cs)).next = (Round.link (mdCollectUntil ']' 1 cs)).rest ∨
      ∃ read, cs = read ++ ']' :: (Round.link (mdCollectUntil ']' 1 cs)).rest := by
  refine (mdCollectUntil_closed 1 cs).imp_left ?_
  intro hrest
  simp only [Round.link, hrest, mdSkipDestination]

/-- A round skips something only after a bracket that it has closed. -/
theorem round_next (inWord : Bool) (c : Char) (cs : List Char) :
    (round inWord c cs).next = (round inWord c cs).rest ∨
      ∃ read, c :: cs = read ++ ']' :: (round inWord c cs).rest ∧
        (round inWord c cs).next = mdSkipDestination (round inWord c cs).rest := by
  fun_cases round inWord c cs with
  | case2 _ _ himage =>
    obtain ⟨cs, rfl⟩ := head?_eq_some_iff.1 himage
    refine (link_next cs).imp_right ?_
    rintro ⟨read, hread⟩
    exact ⟨c :: '[' :: read, congrArg (c :: '[' :: ·) hread, rfl⟩
  | case4 =>
    refine (link_next cs).imp_right ?_
    rintro ⟨read, hread⟩
    exact ⟨c :: read, congrArg (c :: ·) hread, rfl⟩
  | _ => exact .inl rfl

/-- What a scan skips, from the end of `before`, lies within destinations of the text. -/
def Covers (text before : List Char) (scan : List (Char × Bool)) : Prop :=
  ∀ i c, scan[i]? = some (c, true) → (outside text)[before.length + i]? = some false

theorem Covers.nil (text before : List Char) : Covers text before [] := by
  rintro i c ⟨⟩

theorem Covers.append {before : List Char} {scan scan' : List (Char × Bool)} (h : Covers text before scan)
    (h' : Covers text (before ++ scan.map Prod.fst) scan') : Covers text before (scan ++ scan') := by
  intro i c hi
  rw [getElem?_append] at hi
  split_ifs at hi with hlt
  · exact h i c hi
  · have hskipped := h' (i - scan.length) c hi
    rwa [length_append, length_map, Nat.add_assoc, Nat.add_sub_cancel' (Nat.le_of_not_lt hlt)] at hskipped

theorem Covers.passed_false (text before chars rest : List Char) : Covers text before (passed false chars rest) := by
  intro i c hi
  have hmem := mem_of_getElem? hi
  rw [passed, mem_map] at hmem
  obtain ⟨_, _, ⟨⟩⟩ := hmem

theorem passed_self (skipped : Bool) (chars : List Char) : passed skipped chars chars = [] := by
  rw [passed, Nat.sub_self, take_zero, map_nil]

theorem length_passed (skipped : Bool) (chars rest : List Char) :
    (passed skipped chars rest).length = chars.length - rest.length := by
  rw [passed, length_map, length_take]
  omega

theorem covers_skipDestination {before rest : List Char} (h : ClosesParens text)
    (htext : text = before ++ ']' :: rest) :
    Covers text (before ++ [']']) (passed true rest (mdSkipDestination rest)) := by
  intro i c hi
  obtain ⟨hlt, _⟩ := List.getElem?_eq_some_iff.1 hi
  rw [length_passed] at hlt
  rw [List.length_append, List.length_singleton]
  cases rest with
  | nil => exact absurd hlt (Nat.not_lt_zero i)
  | cons d cs =>
    rw [mdSkipDestination] at hlt
    split_ifs at hlt with hd
    · subst hd
      obtain ⟨n, hn⟩ := Option.isSome_iff_exists.1 (h before cs htext)
      have hle := (groupLength_bounds Nat.one_pos hn).2
      rw [mdSkipParens_of_groupLength hn, List.length_cons, List.length_drop] at hlt
      rw [htext]
      exact getElem?_outsideFrom_group hn (by omega) false (.inl rfl)
    · exact absurd hlt (by omega)

section

variable (h : ClosesParens text)

include h

theorem covers_round {before : List Char} (inWord : Bool) {c : Char} (htext : text = before ++ c :: cs) :
    Covers text (before ++ (passed false (c :: cs) (round inWord c cs).rest).map Prod.fst)
      (passed true (round inWord c cs).rest (round inWord c cs).next) := by
  have hrest := (round_rest_suffix inWord c cs).trans (suffix_cons c cs)
  rcases round_next inWord c cs with hnext | ⟨closed, hclosed, hnext⟩
  · rw [hnext, passed_self]
    exact .nil text _
  · have hbracket : text = before ++ closed ++ ']' :: (round inWord c cs).rest := by
      rw [append_assoc, ← hclosed]
      exact htext
    have hread : (passed false (c :: cs) (round inWord c cs).rest).map Prod.fst = closed ++ [']'] := by
      refine append_cancel_right ((map_fst_passed false hrest).trans (hclosed.trans ?_))
      rw [append_assoc, singleton_append]
    rw [hread, hnext, ← append_assoc]
    exact covers_skipDestination h hbracket

variable {before chars : List Char}

theorem covers_readInline (inWord : Bool) (htext : text = before ++ chars) :
    Covers text before (readInline isAlphanumeric inWord chars).1 := by
  fun_induction readInline isAlphanumeric inWord chars generalizing before with
  | case1 => exact .nil text before
  | case2 => exact .nil text before
  | case3 inWord c cs _ round line =>
    rename_i ih
    have hread := map_fst_passed false ((round_rest_suffix inWord c cs).trans (suffix_cons c cs))
    have hskipped := map_fst_passed true (round_next_suffix_rest inWord c cs)
    refine (Covers.append (.passed_false text before _ _) (covers_round h inWord htext)).append (ih ?_)
    rw [map_append, append_assoc, append_assoc, hskipped, hread]
    exact htext

theorem covers_skipScan (htext : text = before ++ chars) : Covers text before (skipScan isAlphanumeric chars) := by
  fun_induction skipScan isAlphanumeric chars generalizing before with
  | case1 => exact .nil text before
  | case2 chars _ line next =>
    rename_i ih
    have hmarks := map_fst_passed false (lineStart_suffix chars)
    have hline : line.1.map Prod.fst ++ line.2 = lineStart chars := readInline_text false (lineStart chars)
    have heol := map_fst_passed false (skipLineTerminator_suffix line.2)
    have hstart : text = before ++ (passed false chars (lineStart chars)).map Prod.fst ++ lineStart chars := by
      rw [append_assoc, hmarks]
      exact htext
    refine ((Covers.append (.passed_false text before _ _) (covers_readInline h false hstart)).append
      (.passed_false text _ _ _)).append (ih ?_)
    rw [map_append, map_append, append_assoc, append_assoc, append_assoc, heol, hline,
      ← append_assoc]
    exact hstart

/-- Where every parenthesis directly after a `]` is closed on its line, nothing is lost. -/
theorem lossless_of_closesParens : Lossless isAlphanumeric text := by
  have hcovers : Covers text [] (skipScan isAlphanumeric text) := covers_skipScan h (nil_append text).symm
  intro x hx _ houtside
  obtain ⟨i, hi⟩ := getElem?_of_mem hx
  rw [marks, getElem?_zip_eq_some] at hi
  cases hskipped : x.1.2 with
  | false => rfl
  | true =>
    have hcovered := hcovers i x.1.1 (hskipped ▸ hi.1)
    rw [length_nil, Nat.zero_add, hi.2, houtside] at hcovered
    exact Option.some.inj hcovered

end

/-! ## Lost and kept -/

theorem proseOf_eq (text : List Char) :
    proseOf isAlphanumeric text =
      ((marks isAlphanumeric text).filter fun x => isAlphanumeric x.1.1 && x.2).map fun x => x.1.1 := by
  have hzip : text.zip (outside text) = (marks isAlphanumeric text).map (Prod.map Prod.fst id) := by
    rw [marks, ← zip_map_left, map_fst_skipScan]
  rw [proseOf, hzip, filter_map, map_map]
  rfl

theorem kept_skipScan (text : List Char) :
    kept isAlphanumeric (skipScan isAlphanumeric text) =
      ((marks isAlphanumeric text).filter fun x => isAlphanumeric x.1.1 && !x.1.2).map fun x => x.1.1 := by
  have hlength : (skipScan isAlphanumeric text).length ≤ (outside text).length := by
    rw [length_outside, ← length_map Prod.fst, map_fst_skipScan]
  have hscan : skipScan isAlphanumeric text = (marks isAlphanumeric text).map Prod.fst := by
    rw [marks, map_fst_zip hlength]
  rw [hscan, kept, filter_map, map_map]
  rfl

/-- On a list, a predicate that implies another picks a sublist of what the other picks. -/
theorem filter_sublist_filter {α : Type*} {p q : α → Bool} {l : List α} (h : ∀ x ∈ l, p x = true → q x = true) :
    List.Sublist (l.filter p) (l.filter q) := by
  have hfilter : l.filter p = (l.filter q).filter p := by
    rw [filter_filter]
    refine filter_congr fun x hx => ?_
    cases hp : p x with
    | false => rfl
    | true => exact (h x hx hp).symm
  rw [hfilter]
  exact filter_sublist

/-- Without backticks, what is lost is lost to `md_skip_parens`: the letters and digits outside destinations come
through when none of them is skipped, as in a text that closes its parentheses. When no destination is shown either,
this is the only way: what comes through of a destination could otherwise stand in for what was lost. -/
theorem keepsProse_of_lossless (h : OnAscii isAlphanumeric) {text : List Char} (htick : '`' ∉ text) :
    (ClosesParens text → Lossless isAlphanumeric text) ∧
      (Lossless isAlphanumeric text → KeepsProse isAlphanumeric text) ∧
      (HidesDestinations isAlphanumeric text →
        (KeepsProse isAlphanumeric text ↔ Lossless isAlphanumeric text)) := by
  have hkeeps : Lossless isAlphanumeric text → KeepsProse isAlphanumeric text := by
    intro hlossless
    rw [KeepsProse, filter_stripMarkdown h htick, kept_skipScan, proseOf_eq]
    refine (filter_sublist_filter fun x hx hprose => ?_).map _
    rw [Bool.and_eq_true] at hprose
    rw [hprose.1, hlossless x hx hprose.1 hprose.2]
    rfl
  refine ⟨lossless_of_closesParens, hkeeps, fun hhides => ⟨fun hprose => ?_, hkeeps⟩⟩
  rw [KeepsProse, filter_stripMarkdown h htick, kept_skipScan, proseOf_eq] at hprose
  have hlength := hprose.length_le
  rw [length_map, length_map] at hlength
  -- what is shown is outside destinations, and as long as what is outside them
  have hshown : List.Sublist ((marks isAlphanumeric text).filter fun x => isAlphanumeric x.1.1 && !x.1.2)
      ((marks isAlphanumeric text).filter fun x => isAlphanumeric x.1.1 && x.2) := by
    refine filter_sublist_filter fun x hx hkept => ?_
    rw [Bool.and_eq_true, Bool.not_eq_true'] at hkept
    rw [hkept.1, hhides x hx hkept.1 hkept.2]
    rfl
  have heq := hshown.eq_of_length_le hlength
  intro x hx hc houtside
  have hmem : x ∈ (marks isAlphanumeric text).filter fun x => isAlphanumeric x.1.1 && x.2 :=
    mem_filter.2 ⟨hx, by rw [hc, houtside]; rfl⟩
  rw [← heq, mem_filter, Bool.and_eq_true, Bool.not_eq_true'] at hmem
  exact hmem.2.2

-- the first `b` is lost, and the one of the destination within the emphasis stands in for it
example : KeepsProse Char.isAlphanum "[a](b\n) *[c](b c)*".toList ∧
    ¬Lossless Char.isAlphanum "[a](b\n) *[c](b c)*".toList := by
  rw [KeepsProse]
  decide +kernel

theorem keepsProse_link :
    KeepsProse Char.isAlphanum "see [a](b) and\n**c** (d".toList ∧
      (KeepsProse Char.isAlphanum "see [a](b) and\n**c** (d".toList ↔
        Lossless Char.isAlphanum "see [a](b) and\n**c** (d".toList) :=
  have h := keepsProse_of_lossless (fun _ _ => rfl) (by decide +kernel)
  ⟨h.2.1 (by decide +kernel), h.2.2 (by decide +kernel)⟩

/-- An open parenthesis after a link takes the next line with it. -/
theorem not_keepsProse_open_destination :
    '`' ∉ "[a](b\nlater".toList ∧ '\\' ∉ "[a](b\nlater".toList ∧
      stripMarkdown Char.isAlphanum "[a](b\nlater".toList = "a".toList ∧
      proseOf Char.isAlphanum "[a](b\nlater".toList = "ablater".toList ∧
      ¬KeepsProse Char.isAlphanum "[a](b\nlater".toList := by
  have hstrip : stripMarkdown Char.isAlphanum "[a](b\nlater".toList = "a".toList := by decide +kernel
  have hprose : proseOf Char.isAlphanum "[a](b\nlater".toList = "ablater".toList := by decide +kernel
  refine ⟨by decide +kernel, by decide +kernel, hstrip, hprose, fun hkeeps => ?_⟩
  rw [KeepsProse, hstrip, hprose] at hkeeps
  exact absurd hkeeps.length_le (by decide +kernel)

end Tagsmaxxing.Text.Markdown
