import PlantNode.Foundation.JsonTree

/-!
# Searching a JSON text for a quoted word

A search of the bytes finds a quoted word in the strings only, but in every string at
any depth, name or value, that ends with it; the last quote of such an occurrence is
the closing quote of the string.  A marker that goes on with a colon and a value finds
the members that are spelled that way, at any depth.
-/

namespace Foundation

namespace JsonTree

open Json (quote backslash comma colon openBracket closeBracket openBrace closeBrace isSpace)

def isLetter (c : UInt8) : Bool := decide (0x61 ≤ c ∧ c ≤ 0x7a)

structure Word (w : List UInt8) : Prop where
  ne_nil : w ≠ []
  letters : ∀ c ∈ w, isLetter c = true

theorem Word.of_all {w : List UInt8} (hne : w ≠ []) (h : w.all isLetter = true) : Word w :=
  ⟨hne, List.all_eq_true.mp h⟩

/-- A letter needs no escape. -/
theorem Word.plain {w : List UInt8} (h : Word w) :
    ∀ c ∈ w, 0x20 ≤ c ∧ c ≠ quote ∧ c ≠ backslash := by
  intro c hc
  obtain ⟨hlow, hhigh⟩ := of_decide_eq_true (h.letters c hc)
  have hspace : (0x20 : UInt8) ≤ 0x61 := by decide
  refine ⟨UInt8.le_trans hspace hlow, ?_, ?_⟩
  · rintro rfl
    exact absurd hlow (by decide)
  · rintro rfl
    exact absurd hlow (by decide)

/-- The token of the string, its quotes included, ends with the word in quotes. -/
def EndsQuoted (w : List UInt8) (s : List StringItem) : Prop :=
  quoted quote w <:+ tokenText s

/-- What may follow a value: nothing, a space, a comma or a closing bracket. -/
def isClosing (c : UInt8) : Bool :=
  isSpace c || c == comma || c == closeBracket || c == closeBrace

def Closing (rest : List UInt8) : Prop := ∀ c ∈ rest.head?, isClosing c = true

/-- What may follow a string, which may be a name. -/
def Separated (rest : List UInt8) : Prop := ∀ c ∈ rest.head?, isClosing c = true ∨ c = colon

variable {p : JsonPart} {w tail rest bs : List UInt8} {s : List StringItem} {i : StringItem}
  {ws : List Space} {c : UInt8}

/-! ## Bytes -/

theorem ne_quote_of_isLetter (h : isLetter c = true) : quote ≠ c := by
  rintro rfl
  cases h

theorem ne_backslash_of_isLetter (h : isLetter c = true) : backslash ≠ c := by
  rintro rfl
  cases h

theorem not_isLetter_of_isClosing (h : isClosing c = true) : isLetter c = false := by
  have hcases : c = 0x20 ∨ c = 0x09 ∨ c = 0x0a ∨ c = 0x0d ∨ c = comma ∨ c = closeBracket ∨
      c = closeBrace := by
    simpa [isClosing, isSpace, or_assoc] using h
  rcases hcases with rfl | rfl | rfl | rfl | rfl | rfl | rfl <;> rfl

theorem Closing.separated (h : Closing rest) : Separated rest := fun c hc ↦ .inl (h c hc)

theorem Closing.colon_not_prefix (h : Closing rest) : ¬colon :: tail <+: rest := by
  rintro ⟨more, rfl⟩
  exact absurd (h colon rfl) (by decide)

theorem closing_nil : Closing [] := by
  rintro c ⟨⟩

theorem closing_cons (h : isClosing c = true) : Closing (c :: rest) := by
  rintro d ⟨⟩
  exact h

theorem closing_bracket (rest : List UInt8) : Closing (closeBracket :: rest) := closing_cons rfl

theorem closing_brace (rest : List UInt8) : Closing (closeBrace :: rest) := closing_cons rfl

theorem closing_comma (rest : List UInt8) : Closing (comma :: rest) := closing_cons rfl

theorem isClosing_byte (x : Space) : isClosing x.byte = true := by cases x <;> rfl

theorem closing_spaceText (ws : List Space) (h : Closing rest) :
    Closing (spaceText ws ++ rest) := by
  cases ws with
  | nil => exact h
  | cons x ws => exact closing_cons (isClosing_byte x)

theorem separated_key (k : Key) : Separated (k.rest ++ rest) := by
  obtain ⟨before, name, gap, after⟩ := k
  cases gap with
  | nil =>
      rintro c ⟨⟩
      exact .inr rfl
  | cons x gap =>
      rintro c ⟨⟩
      exact .inl (isClosing_byte x)

/-- A word in quotes does not start at a closing quote. -/
theorem Separated.not_prefix (h : Separated rest) (hw : Word w) : ¬w ++ bs <+: rest := by
  rintro ⟨more, rfl⟩
  obtain ⟨c, w, rfl⟩ := List.exists_cons_of_ne_nil hw.ne_nil
  have hc := hw.letters c List.mem_cons_self
  rcases h c rfl with hclosing | rfl
  · rw [not_isLetter_of_isClosing hclosing] at hc
    cases hc
  · cases hc

/-! ## Texts without quotes -/

theorem quote_not_mem_spaceText (ws : List Space) : quote ∉ spaceText ws := by
  rintro h
  obtain ⟨x, -, hx⟩ := List.mem_map.mp h
  cases x <;> exact absurd hx (by decide)

theorem quote_not_mem_literal (l : Literal) : quote ∉ l.text := by
  cases l <;> decide

theorem quote_not_mem_digits {ds : List UInt8} (h : DigitRun ds) : quote ∉ ds :=
  fun hmem ↦ absurd (h.digits _ hmem) (by decide)

theorem quote_not_mem_exponent (e : Exponent) : quote ∉ e.text := by
  obtain ⟨upper, sign, digits⟩ := e
  have hdigits := quote_not_mem_digits digits.2
  have hupper : quote ≠ if upper then 0x45 else 0x65 := by cases upper <;> decide
  simp only [Exponent.text, List.mem_cons, List.mem_append, not_or]
  refine ⟨hupper, ?_, hdigits⟩
  cases sign with
  | none => exact List.not_mem_nil
  | some negative => cases negative <;> decide

theorem quote_not_mem_number (n : Number) : quote ∉ n.text := by
  obtain ⟨negative, whole, fraction, exponent⟩ := n
  have hsign : ∀ b, quote ∉ signText b := by decide
  have hwhole := quote_not_mem_digits whole.2.1
  simp only [Number.text, List.mem_append, not_or]
  refine ⟨⟨⟨hsign negative, hwhole⟩, ?_⟩, ?_⟩
  · cases fraction with
    | none => exact List.not_mem_nil
    | some ds =>
        rw [List.mem_cons, not_or]
        exact ⟨by decide, quote_not_mem_digits ds.2⟩
  · cases exponent with
    | none => exact List.not_mem_nil
    | some e => exact quote_not_mem_exponent e

theorem quote_not_mem_rest (k : Key) : quote ∉ k.rest := by
  rw [Key.rest, List.mem_append, List.mem_cons]
  rintro (h | h | h)
  · exact quote_not_mem_spaceText _ h
  · exact absurd h (by decide)
  · exact quote_not_mem_spaceText _ h

theorem quote_cons_infix_cons (hc : quote ≠ c) :
    quote :: tail <:+: c :: rest ↔ quote :: tail <:+: rest := by
  rw [List.infix_cons_iff, List.cons_prefix_cons, or_iff_right fun h ↦ hc h.1]

theorem quote_cons_suffix_cons (hc : quote ≠ c) :
    quote :: tail <:+ c :: rest ↔ quote :: tail <:+ rest := by
  rw [List.suffix_cons_iff, or_iff_right fun h ↦ hc (List.cons.inj h).1]

/-- An occurrence that starts with a quote starts after a text without quotes. -/
theorem quote_cons_infix_append (hs : quote ∉ bs) :
    quote :: tail <:+: bs ++ rest ↔ quote :: tail <:+: rest := by
  induction bs with
  | nil => rw [List.nil_append]
  | cons c bs ih =>
      rw [List.cons_append, quote_cons_infix_cons (List.ne_of_not_mem_cons hs),
        ih (List.not_mem_of_not_mem_cons hs)]

theorem quote_cons_suffix_append (hs : quote ∉ bs) :
    quote :: tail <:+ bs ++ rest ↔ quote :: tail <:+ rest := by
  induction bs with
  | nil => rw [List.nil_append]
  | cons c bs ih =>
      rw [List.cons_append, quote_cons_suffix_cons (List.ne_of_not_mem_cons hs),
        ih (List.not_mem_of_not_mem_cons hs)]

/-! ## One string -/

/-- An item is a byte that is neither a quote nor a backslash, an escaped quote, or an
escape without a quote. -/
theorem StringItem.text_cases (i : StringItem) :
    (∃ c, i.text = [c] ∧ quote ≠ c ∧ backslash ≠ c) ∨ i.text = [backslash, quote] ∨
      ∃ bs, i.text = backslash :: bs ∧ quote ∉ i.text := by
  cases i with
  | plain c h => exact .inl ⟨c, rfl, h.2.1.symm, h.2.2.symm⟩
  | escape c h =>
      by_cases hc : c = quote
      · exact .inr (.inl (congrArg (fun x ↦ [backslash, x]) hc))
      · refine .inr (.inr ⟨[c], rfl, ?_⟩)
        rw [StringItem.text, List.mem_pair, not_or]
        exact ⟨by decide, Ne.symm hc⟩
  | unicode a b c d h =>
      have hdigits : ∀ x ∈ [a, b, c, d], (Json.hexDigit x).isSome := by
        simp only [Json.hex4, Option.bind_eq_bind, Option.isSome_iff_exists] at h
        obtain ⟨r, hr⟩ := h
        simp only [Option.bind_eq_some_iff] at hr
        obtain ⟨a', ha, b', hb, c', hc, d', hd, -⟩ := hr
        simp [ha, hb, hc, hd]
      have hquote : quote ∉ [a, b, c, d] := fun hmem ↦ absurd (hdigits _ hmem) (by decide)
      refine .inr (.inr ⟨[0x75, a, b, c, d], rfl, ?_⟩)
      rw [StringItem.text, List.mem_cons, List.mem_cons, not_or, not_or]
      exact ⟨by decide, by decide, hquote⟩

@[simp] theorem rawText_nil : rawText [] = [] := rfl

@[simp] theorem rawText_cons (i : StringItem) (s : List StringItem) :
    rawText (i :: s) = i.text ++ rawText s := List.flatMap_cons

/-- The first quote that a word meets in a string is the closing one. -/
theorem word_prefix_iff (hw : ∀ c ∈ w, isLetter c = true) :
    w ++ quote :: tail <+: rawText s ++ quote :: rest ↔ rawText s = w ∧ tail <+: rest := by
  induction s generalizing w with
  | nil =>
      cases w with
      | nil => simp
      | cons c w =>
          have hc := ne_quote_of_isLetter (hw c List.mem_cons_self)
          simp [hc.symm]
  | cons i s ih =>
      have hitem : (∃ c, i.text = [c] ∧ quote ≠ c ∧ backslash ≠ c) ∨
          ∃ bs, i.text = backslash :: bs := by
        rcases i.text_cases with h | h | ⟨bs, h, -⟩
        · exact .inl h
        · exact .inr ⟨[quote], h⟩
        · exact .inr ⟨bs, h⟩
      rcases hitem with ⟨c, hi, hquote, -⟩ | ⟨bs, hi⟩
      · cases w with
        | nil => simp [hi, hquote]
        | cons d w =>
            have ih := ih fun x hx ↦ hw x (List.mem_cons_of_mem d hx)
            rw [rawText_cons, hi, List.singleton_append, List.cons_append, List.cons_append,
              List.cons_prefix_cons, ih, List.cons.injEq, eq_comm (a := d), and_assoc]
      · cases w with
        | nil =>
            have hne : quote ≠ backslash := by decide
            simp [hi, hne]
        | cons d w =>
            have hd := ne_backslash_of_isLetter (hw d List.mem_cons_self)
            simp [hi, hd, hd.symm]

/-- The occurrences in the characters of a string, its closing quote and what follows. -/
theorem infix_rawText (hw : ∀ c ∈ w, isLetter c = true) :
    quote :: (w ++ quote :: tail) <:+: rawText s ++ quote :: rest ↔
      (quote :: w <:+ rawText s ∧ tail <+: rest) ∨ w ++ quote :: tail <+: rest ∨
        quote :: (w ++ quote :: tail) <:+: rest := by
  induction s with
  | nil =>
      rw [rawText_nil, List.nil_append, List.infix_cons_iff, List.cons_prefix_cons, eq_self,
        true_and, List.suffix_nil]
      simp
  | cons i s ih =>
      have hplain : quote ∉ i.text → (quote :: (w ++ quote :: tail) <:+:
          rawText (i :: s) ++ quote :: rest ↔ (quote :: w <:+ rawText (i :: s) ∧ tail <+: rest) ∨
            w ++ quote :: tail <+: rest ∨ quote :: (w ++ quote :: tail) <:+: rest) := by
        intro hi
        rw [rawText_cons, List.append_assoc, quote_cons_infix_append hi, ih,
          quote_cons_suffix_append hi]
      rcases i.text_cases with ⟨c, hi, hquote, -⟩ | hi | ⟨bs, -, hi⟩
      · exact hplain (by simp [hi, hquote])
      · have hslash : quote ≠ backslash := by decide
        rw [rawText_cons, hi]
        simp only [List.cons_append, List.nil_append]
        rw [quote_cons_infix_cons hslash, quote_cons_suffix_cons hslash, List.infix_cons_iff,
          List.cons_prefix_cons, eq_self, true_and, word_prefix_iff hw, ih,
          List.suffix_cons_iff, List.cons.injEq, eq_self, true_and, eq_comm (a := w)]
        rw [or_and_right, or_assoc]
      · exact hplain hi

/-- A quoted word and what follows it occur in a string and its continuation if the
string ends with the word, or after the string. -/
theorem infix_tokenText (hw : Word w) (hrest : Separated rest) :
    quoted quote w ++ tail <:+: tokenText s ++ rest ↔
      (EndsQuoted w s ∧ tail <+: rest) ∨ quoted quote w ++ tail <:+: rest := by
  have hshape : quoted quote w ++ tail = quote :: (w ++ quote :: tail) := by simp [quoted]
  have hends : EndsQuoted w s ↔ rawText s = w ∨ quote :: w <:+ rawText s := by
    rw [EndsQuoted, tokenText, quoted, quoted, ← List.cons_append, ← List.cons_append,
      List.suffix_append_self_iff, List.suffix_cons_iff, List.cons.injEq, eq_self, true_and,
      eq_comm]
  have hnot : ¬w ++ quote :: tail <+: rest := hrest.not_prefix hw
  rw [hshape, hends, tokenText, quoted, List.cons_append, List.append_assoc, List.singleton_append,
    List.infix_cons_iff, List.cons_prefix_cons, eq_self, true_and, word_prefix_iff hw.letters,
    infix_rawText hw.letters, or_iff_right hnot, or_and_right, or_assoc]

/-! ## A whole tree -/

/-- The strings at any depth, each with the text after it. -/
def spots {p : JsonPart} : JsonTree p → List UInt8 → List (List StringItem × List UInt8)
  | string s, rest => [(s, rest)]
  | array items, rest => items.spots (closeBracket :: rest)
  | object members, rest => members.spots (closeBrace :: rest)
  | lastItem _ v after, rest => v.spots (spaceText after ++ rest)
  | item _ v after more, rest =>
      v.spots (spaceText after ++ comma :: (more.text ++ rest)) ++ more.spots rest
  | lastMember k v after, rest =>
      (k.name, k.rest ++ (v.text ++ (spaceText after ++ rest))) :: v.spots (spaceText after ++ rest)
  | member k v after more, rest =>
      (k.name, k.rest ++ (v.text ++ (spaceText after ++ comma :: (more.text ++ rest)))) ::
        (v.spots (spaceText after ++ comma :: (more.text ++ rest)) ++ more.spots rest)
  | literal _, _ | number _, _ | emptyArray _, _ | emptyObject _, _ => []

theorem map_fst_spots (t : JsonTree p) (rest : List UInt8) :
    (t.spots rest).map Prod.fst = t.strings := by
  induction t generalizing rest with
  | literal | number | string | emptyArray | emptyObject => rfl
  | array items ih => exact ih _
  | object members ih => exact ih _
  | lastItem before v after ih => exact ih _
  | item before v after more ihv ihmore => simp [spots, strings, ihv, ihmore]
  | lastMember k v after ih => simp [spots, strings, ih]
  | member k v after more ihv ihmore => simp [spots, strings, ihv, ihmore]

/-- The marker is found at this string with this text after it. -/
def Found (w tail : List UInt8) (x : List StringItem × List UInt8) : Prop :=
  EndsQuoted w x.1 ∧ tail <+: x.2

theorem quoted_infix_plain (hs : quote ∉ bs) :
    quoted quote w ++ tail <:+: bs ++ rest ↔ quoted quote w ++ tail <:+: rest := by
  rw [quoted, List.cons_append]
  exact quote_cons_infix_append hs

theorem quoted_infix_cons (hc : quote ≠ c) :
    quoted quote w ++ tail <:+: c :: rest ↔ quoted quote w ++ tail <:+: rest := by
  rw [quoted, List.cons_append]
  exact quote_cons_infix_cons hc

theorem quoted_infix_key (hw : Word w) (k : Key) :
    quoted quote w ++ tail <:+: k.text ++ rest ↔
      Found w tail (k.name, k.rest ++ rest) ∨ quoted quote w ++ tail <:+: rest := by
  rw [Key.text, List.append_assoc, List.append_assoc,
    quoted_infix_plain (quote_not_mem_spaceText _), infix_tokenText hw (separated_key k),
    quoted_infix_plain (quote_not_mem_rest k), Found]

/-- A marker is found at one of the strings, or after the tree. -/
theorem quoted_infix_text (hw : Word w) (t : JsonTree p) (hrest : Closing rest) :
    quoted quote w ++ tail <:+: t.text ++ rest ↔
      (∃ x ∈ t.spots rest, Found w tail x) ∨ quoted quote w ++ tail <:+: rest := by
  have hnone : ∀ P : Prop, ((∃ x ∈ [], Found w tail x) ∨ P) ↔ P := by simp
  have hbrackets : quote ≠ openBracket ∧ quote ≠ closeBracket ∧ quote ≠ openBrace ∧
      quote ≠ closeBrace := by decide
  obtain ⟨hopenBracket, hcloseBracket, hopenBrace, hcloseBrace⟩ := hbrackets
  have hne : quote ≠ comma := by decide
  induction t generalizing rest with
  | literal l => rw [text, spots, hnone, quoted_infix_plain (quote_not_mem_literal l)]
  | number n => rw [text, spots, hnone, quoted_infix_plain (quote_not_mem_number n)]
  | string s =>
      rw [text, spots, infix_tokenText hw hrest.separated]
      simp [Found]
  | emptyArray ws =>
      rw [text, spots, hnone, List.cons_append, List.append_assoc, List.singleton_append,
        quoted_infix_cons hopenBracket, quoted_infix_plain (quote_not_mem_spaceText ws),
        quoted_infix_cons hcloseBracket]
  | array items ih =>
      rw [text, spots, List.cons_append, List.append_assoc, List.singleton_append,
        quoted_infix_cons hopenBracket]
      apply (ih (closing_bracket rest)).trans
      rw [quoted_infix_cons hcloseBracket]
  | emptyObject ws =>
      rw [text, spots, hnone, List.cons_append, List.append_assoc, List.singleton_append,
        quoted_infix_cons hopenBrace, quoted_infix_plain (quote_not_mem_spaceText ws),
        quoted_infix_cons hcloseBrace]
  | object members ih =>
      rw [text, spots, List.cons_append, List.append_assoc, List.singleton_append,
        quoted_infix_cons hopenBrace]
      apply (ih (closing_brace rest)).trans
      rw [quoted_infix_cons hcloseBrace]
  | lastItem before v after ih =>
      rw [text, spots, List.append_assoc, List.append_assoc,
        quoted_infix_plain (quote_not_mem_spaceText before)]
      apply (ih (closing_spaceText after hrest)).trans
      rw [quoted_infix_plain (quote_not_mem_spaceText after)]
  | item before v after more ihv ihmore =>
      have hcomma := closing_comma (more.text ++ rest)
      rw [text, spots, List.append_assoc, List.append_assoc, List.append_assoc, List.cons_append,
        quoted_infix_plain (quote_not_mem_spaceText before)]
      apply (ihv (closing_spaceText after hcomma)).trans
      rw [quoted_infix_plain (quote_not_mem_spaceText after), quoted_infix_cons hne]
      apply (or_congr_right (ihmore hrest)).trans
      simp only [List.mem_append, or_and_right, exists_or, or_assoc]
  | lastMember k v after ih =>
      rw [text, spots, List.append_assoc, List.append_assoc, quoted_infix_key hw]
      apply (or_congr_right (ih (closing_spaceText after hrest))).trans
      rw [quoted_infix_plain (quote_not_mem_spaceText after)]
      simp only [List.mem_cons, or_and_right, exists_or, exists_eq_left, or_assoc]
  | member k v after more ihv ihmore =>
      have hcomma := closing_comma (more.text ++ rest)
      rw [text, spots, List.append_assoc, List.append_assoc, List.append_assoc, List.cons_append,
        quoted_infix_key hw]
      apply (or_congr_right (ihv (closing_spaceText after hcomma))).trans
      rw [quoted_infix_plain (quote_not_mem_spaceText after), quoted_infix_cons hne]
      apply (or_congr_right (or_congr_right (ihmore hrest))).trans
      simp only [List.mem_cons, List.mem_append, or_and_right, exists_or, exists_eq_left, or_assoc]

/-- A quoted word alone is found at the strings that end with it. -/
theorem found_nil_iff (t : JsonTree p) (rest : List UInt8) :
    (∃ x ∈ t.spots rest, Found w [] x) ↔ ∃ s ∈ t.strings, EndsQuoted w s := by
  rw [← map_fst_spots t rest]
  simp [Found]

/-- A marker with a colon is found at the names of members.  `Spelled` says how the
whitespace and the value after the colon go on with the rest of the marker. -/
theorem found_colon_iff {Spelled : List Space → JsonTree .value → Prop}
    (hspelled : ∀ ws (v : JsonTree .value) rest,
      tail <+: spaceText ws ++ (v.text ++ rest) ↔ Spelled ws v)
    (t : JsonTree p) (hrest : Closing rest) :
    (∃ x ∈ t.spots rest, Found w (colon :: tail) x) ↔
      ∃ m ∈ t.allMembers, EndsQuoted w m.1.name ∧ m.1.gap = [] ∧ Spelled m.1.after m.2 := by
  have hkey : ∀ (k : Key) (v : JsonTree .value) more, Found w (colon :: tail)
      (k.name, k.rest ++ (v.text ++ more)) ↔
        EndsQuoted w k.name ∧ k.gap = [] ∧ Spelled k.after v := by
    intro k v more
    obtain ⟨before, name, gap, after⟩ := k
    cases gap with
    | nil =>
        simp only [Found, Key.rest, spaceText, List.map_nil, List.nil_append, List.cons_append,
          List.cons_prefix_cons, true_and]
        rw [← spaceText, hspelled]
    | cons x gap =>
        have hx : colon ≠ x.byte := by cases x <;> decide
        simp [Found, Key.rest, spaceText, hx]
  induction t generalizing rest with
  | literal | number | emptyArray | emptyObject => simp [spots, allMembers]
  | string s => simp [spots, allMembers, Found, hrest.colon_not_prefix]
  | array items ih => exact ih (closing_bracket rest)
  | object members ih => exact ih (closing_brace rest)
  | lastItem before v after ih => exact ih (closing_spaceText after hrest)
  | item before v after more ihv ihmore =>
      simp only [spots, allMembers, List.mem_append, or_and_right, exists_or,
        ihv (closing_spaceText after (closing_comma (more.text ++ rest))), ihmore hrest]
  | lastMember k v after ih =>
      simp only [spots, allMembers, List.mem_cons, or_and_right, exists_or, exists_eq_left, hkey,
        ih (closing_spaceText after hrest)]
  | member k v after more ihv ihmore =>
      simp only [spots, allMembers, List.mem_cons, List.mem_append, or_and_right, exists_or,
        exists_eq_left, hkey, ihv (closing_spaceText after (closing_comma (more.text ++ rest))),
        ihmore hrest]

/-! ## The value true -/

/-- A value does not start with a space, and with the letter of `true` only if it is. -/
theorem head_text (v : JsonTree .value) :
    ∃ c bs, v.text = c :: bs ∧ 0x20 ≠ c ∧ (0x74 = c → v = .literal .true) := by
  cases v with
  | literal l =>
      cases l with
      | null => exact ⟨0x6e, ascii "ull", rfl, by decide, fun h ↦ absurd h (by decide)⟩
      | true => exact ⟨0x74, ascii "rue", rfl, by decide, fun _ ↦ rfl⟩
      | false => exact ⟨0x66, ascii "alse", rfl, by decide, fun h ↦ absurd h (by decide)⟩
  | number n =>
      obtain ⟨negative, ⟨ds, hrun, hzero⟩, fraction, exponent⟩ := n
      cases negative with
      | true => exact ⟨minusSign, _, rfl, by decide, fun h ↦ absurd h (by decide)⟩
      | false =>
          obtain ⟨c, ds, rfl⟩ := List.exists_cons_of_ne_nil hrun.ne_nil
          have hc := hrun.digits c List.mem_cons_self
          refine ⟨c, _, rfl, ?_, ?_⟩ <;> rintro rfl <;> cases hc
  | string s => exact ⟨quote, _, rfl, by decide, fun h ↦ absurd h (by decide)⟩
  | emptyArray ws => exact ⟨openBracket, _, rfl, by decide, fun h ↦ absurd h (by decide)⟩
  | array items => exact ⟨openBracket, _, rfl, by decide, fun h ↦ absurd h (by decide)⟩
  | emptyObject ws => exact ⟨openBrace, _, rfl, by decide, fun h ↦ absurd h (by decide)⟩
  | object members => exact ⟨openBrace, _, rfl, by decide, fun h ↦ absurd h (by decide)⟩

theorem true_prefix_iff (ws : List Space) (v : JsonTree .value) (rest : List UInt8) :
    ascii "true" <+: spaceText ws ++ (v.text ++ rest) ↔ ws = [] ∧ v = .literal .true := by
  have hsplit : ascii "true" = 0x74 :: ascii "rue" := rfl
  cases ws with
  | nil =>
      obtain ⟨c, bs, htext, -, hc⟩ := head_text v
      constructor
      · intro h
        rw [hsplit, spaceText, List.map_nil, List.nil_append, htext, List.cons_append,
          List.cons_prefix_cons] at h
        exact ⟨rfl, hc h.1⟩
      · rintro ⟨-, rfl⟩
        exact List.prefix_append _ _
  | cons x ws =>
      have hx : (0x74 : UInt8) ≠ x.byte := by cases x <;> decide
      rw [hsplit, spaceText, List.map_cons, List.cons_append, List.cons_prefix_cons]
      exact ⟨fun h ↦ absurd h.1 hx, fun h ↦ absurd h.1 (List.cons_ne_nil _ _)⟩

theorem blank_true_prefix_iff (ws : List Space) (v : JsonTree .value) (rest : List UInt8) :
    ascii " true" <+: spaceText ws ++ (v.text ++ rest) ↔
      ws = [.blank] ∧ v = .literal .true := by
  have hsplit : ascii " true" = 0x20 :: ascii "true" := rfl
  cases ws with
  | nil =>
      obtain ⟨c, bs, htext, hc, -⟩ := head_text v
      rw [hsplit, spaceText, List.map_nil, List.nil_append, htext, List.cons_append,
        List.cons_prefix_cons]
      exact ⟨fun h ↦ absurd h.1 hc, fun h ↦ absurd h.1 (List.cons_ne_nil _ _).symm⟩
  | cons x ws =>
      have hx : 0x20 = x.byte ↔ x = .blank := by cases x <;> decide
      rw [hsplit, spaceText, List.map_cons, List.cons_append, List.cons_prefix_cons, hx,
        ← spaceText, true_prefix_iff, List.cons.injEq, and_assoc]

end JsonTree

/-! ## Objects -/

namespace JsonObject

open Json (quote colon)
open JsonTree

variable {w tail : List UInt8}

theorem closing_after (o : JsonObject) : Closing (spaceText o.after) := by
  rw [← List.append_nil (spaceText o.after)]
  exact closing_spaceText o.after closing_nil

theorem quoted_infix_iff (hw : Word w) (o : JsonObject) :
    quoted quote w ++ tail <:+: o.text ↔
      ∃ x ∈ o.tree.spots (spaceText o.after), Found w tail x := by
  have hafter : ¬quoted quote w ++ tail <:+: spaceText o.after :=
    fun h ↦ quote_not_mem_spaceText o.after (h.subset (by simp [quoted]))
  rw [text, quoted_infix_plain (quote_not_mem_spaceText o.before),
    quoted_infix_text hw o.tree o.closing_after, or_iff_left hafter]

/-- The quoted word occurs in the text of an object exactly if some string at any depth
ends with it. -/
theorem quoted_infix_iff_strings (hw : Word w) (o : JsonObject) :
    quoted quote w <:+: o.text ↔ ∃ s ∈ o.tree.strings, EndsQuoted w s := by
  rw [← found_nil_iff o.tree (spaceText o.after), ← quoted_infix_iff hw, List.append_nil]

/-- The quoted word with a colon and `true` occurs exactly if some member at any depth is
written that way. -/
theorem quoted_true_infix_iff (hw : Word w) (o : JsonObject) :
    quoted quote w ++ colon :: ascii "true" <:+: o.text ↔
      ∃ m ∈ o.tree.allMembers, EndsQuoted w m.1.name ∧ m.1.gap = [] ∧ m.1.after = [] ∧
        m.2 = .literal .true := by
  rw [quoted_infix_iff hw, found_colon_iff true_prefix_iff o.tree o.closing_after]

theorem quoted_blank_true_infix_iff (hw : Word w) (o : JsonObject) :
    quoted quote w ++ colon :: ascii " true" <:+: o.text ↔
      ∃ m ∈ o.tree.allMembers, EndsQuoted w m.1.name ∧ m.1.gap = [] ∧ m.1.after = [.blank] ∧
        m.2 = .literal .true := by
  rw [quoted_infix_iff hw, found_colon_iff blank_true_prefix_iff o.tree o.closing_after]

end JsonObject

end Foundation
