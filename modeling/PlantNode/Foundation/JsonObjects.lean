import PlantNode.Foundation.Json

/-!
# Reading back a compact object

The compact text of an object is read back as that object, if the text of each value
is read back as that value: the scanners take a key, a colon and a value at a time.
-/

namespace Foundation.Json

def PlainKey (key : List UInt8) : Prop :=
  ∀ c ∈ key, 0x20 ≤ c ∧ c < 0x80 ∧ c ≠ quote ∧ c ≠ backslash

instance (key : List UInt8) : Decidable (PlainKey key) :=
  decidable_of_iff
    (key.all (fun c ↦ decide (0x20 ≤ c ∧ c < 0x80 ∧ c ≠ quote ∧ c ≠ backslash)) = true)
    (by simp only [List.all_eq_true, decide_eq_true_eq]; rfl)

def EndsNumber (rest : List UInt8) : Prop :=
  ∀ c ∈ rest.head?, c = comma ∨ c = closeBrace

def points (key : List UInt8) : List ℕ := key.map UInt8.toNat

/-- The text is read as the value, up to a comma or a closing brace. -/
structure Scans (text : List UInt8) (value : Json) : Prop where
  starts : ∀ rest, skipSpace (text ++ rest) = text ++ rest
  scans : ∀ fuel rest, EndsNumber rest → scanValue (fuel + 1) (text ++ rest) = some (value, rest)

structure Field where
  key : List UInt8
  text : List UInt8
  value : Json

def Field.member (m : Field) : List ℕ × Json := (points m.key, m.value)

def fieldText (m : Field) : List UInt8 :=
  quote :: m.key ++ quote :: colon :: m.text

/-- The fields after the first, each after a comma, and the closing brace. -/
def fieldsText : List Field → List UInt8
  | [] => [closeBrace]
  | m :: ms => comma :: fieldText m ++ fieldsText ms

variable {key rest text : List UInt8} {fuel : ℕ}

theorem scanString_plain (hkey : PlainKey key) (hfuel : key.length < fuel) :
    scanString fuel (key ++ quote :: rest) = some (points key, rest) := by
  induction key generalizing fuel with
  | nil =>
      obtain ⟨fuel, rfl⟩ := Nat.exists_eq_add_of_lt hfuel
      simp [scanString, points]
  | cons c key ih =>
      obtain ⟨fuel, rfl⟩ := Nat.exists_eq_succ_of_ne_zero (Nat.ne_of_gt (Nat.zero_lt_of_lt hfuel))
      obtain ⟨hlow, hhigh, hquote, hslash⟩ := hkey c List.mem_cons_self
      have ih := ih (fun x hx ↦ hkey x (List.mem_cons_of_mem _ hx)) (Nat.lt_of_succ_lt_succ hfuel)
      have hlow : ¬c < 0x20 := by simpa using hlow
      simp [scanString, hquote, hslash, hlow, hhigh, ih, points]

theorem scans_string (hkey : PlainKey key) :
    Scans (quote :: key ++ [quote]) (.string (points key)) where
  starts _ := rfl
  scans fuel rest _ := by
    have hstring : scanString ((key ++ quote :: rest).length + 1) (key ++ quote :: rest) =
        some (points key, rest) := scanString_plain hkey (by simp)
    simp only [List.cons_append, List.append_assoc, List.nil_append, scanValue, if_true, hstring]
    rfl

theorem scanMembers_field (m : Field) (hkey : PlainKey m.key) (hvalue : Scans m.text m.value)
    (h : EndsNumber rest) :
    scanMembers (fuel + 2) (fieldText m ++ rest) =
      match skipSpace rest with
      | [] => none
      | c :: rest =>
          if c = closeBrace then some ([m.member], rest)
          else if c ≠ comma then none
          else (scanMembers (fuel + 1) (skipSpace rest)).bind fun x ↦
            some (m.member :: x.1, x.2) := by
  have htext : fieldText m ++ rest = quote :: (m.key ++ quote :: colon :: (m.text ++ rest)) := by
    simp [fieldText]
  have hstring : scanString ((m.key ++ quote :: colon :: (m.text ++ rest)).length + 1)
      (m.key ++ quote :: colon :: (m.text ++ rest)) =
        some (points m.key, colon :: (m.text ++ rest)) :=
    scanString_plain hkey (by simp)
  have hcolon : skipSpace (colon :: (m.text ++ rest)) = colon :: (m.text ++ rest) := rfl
  have hscan : scanValue (fuel + 1) (m.text ++ rest) = some (m.value, rest) :=
    hvalue.scans fuel rest h
  rw [scanMembers, htext]
  simp only [expect, if_true, Option.bind_eq_bind, Option.bind_some]
  rw [hstring]
  simp only [if_true, Option.bind_some, hcolon]
  rw [hvalue.starts, hscan]
  simp only [Option.bind_some]
  cases skipSpace rest with
  | nil => rfl
  | cons c rest =>
      by_cases hbrace : c = closeBrace
      · simp only [hbrace, if_true]
        rfl
      · simp only [hbrace, if_false]
        split <;> rfl

theorem scanMembers_text (m : Field) (ms : List Field) (hkeys : ∀ x ∈ m :: ms, PlainKey x.key)
    (hvalues : ∀ x ∈ m :: ms, Scans x.text x.value) :
    scanMembers (ms.length + fuel + 2) (fieldText m ++ (fieldsText ms ++ rest)) =
      some ((m :: ms).map Field.member, rest) := by
  have hkey := hkeys m List.mem_cons_self
  have hvalue := hvalues m List.mem_cons_self
  induction ms generalizing m with
  | nil =>
      have hend : EndsNumber (fieldsText [] ++ rest) := by
        rintro c hc
        exact .inr (Option.mem_some.mp hc).symm
      rw [scanMembers_field m hkey hvalue hend]
      rfl
  | cons m' ms ih =>
      have hend : EndsNumber (fieldsText (m' :: ms) ++ rest) := by
        rintro c hc
        exact .inl (Option.mem_some.mp hc).symm
      have hkeys' : ∀ x ∈ m' :: ms, PlainKey x.key := fun x hx ↦ hkeys x (List.mem_cons_of_mem _ hx)
      have hvalues' : ∀ x ∈ m' :: ms, Scans x.text x.value :=
        fun x hx ↦ hvalues x (List.mem_cons_of_mem _ hx)
      have ih := ih m' hkeys' hvalues' (hkeys' m' List.mem_cons_self)
        (hvalues' m' List.mem_cons_self)
      have hcomma : skipSpace (fieldsText (m' :: ms) ++ rest) =
          comma :: (fieldText m' ++ (fieldsText ms ++ rest)) := by
        simp [fieldsText, skipSpace, isSpace, comma]
      have hquote : skipSpace (fieldText m' ++ (fieldsText ms ++ rest)) =
          fieldText m' ++ (fieldsText ms ++ rest) := rfl
      rw [List.length_cons, Nat.add_right_comm ms.length 1 fuel,
        scanMembers_field m hkey hvalue hend, hcomma]
      simp only [hquote]
      rw [if_neg (by decide), if_neg (by decide),
        show ms.length + fuel + 1 + 1 = ms.length + fuel + 2 from rfl, ih]
      rfl

theorem dict_of_nodup (members : List (List ℕ × Json)) (h : (members.map Prod.fst).Nodup) :
    dict members = .object members := by
  have hfold : ∀ ms acc : List (List ℕ × Json), ((acc ++ ms).map Prod.fst).Nodup →
      ms.foldl insertMember acc = acc ++ ms := by
    intro ms
    induction ms with
    | nil => simp
    | cons m ms ih =>
        intro acc hnodup
        have hfresh : acc.any (fun x ↦ x.1 = m.1) = false := by
          rw [List.map_append, List.nodup_append] at hnodup
          simp only [List.any_eq_false, decide_eq_true_eq]
          exact fun x hx ↦ hnodup.2.2 x.1 (List.mem_map_of_mem hx) m.1 (by simp)
        rw [List.foldl_cons, insertMember, hfresh, if_neg (by decide), ih _ (by simpa using hnodup)]
        simp
  rw [dict, hfold members [] (by simpa using h), List.nil_append]

theorem points_injective : Function.Injective points :=
  List.map_injective_iff.mpr fun _ _ h ↦ UInt8.toNat_inj.mp h

theorem length_le_fieldsText (ms : List Field) : ms.length + 1 ≤ (fieldsText ms).length := by
  induction ms with
  | nil => simp [fieldsText]
  | cons m ms ih =>
      rw [fieldsText, List.length_cons, List.length_append, List.length_cons]
      omega

/-- The compact text of an object is read back as that object. -/
theorem loads_fields (m : Field) (ms : List Field) (hkeys : ∀ x ∈ m :: ms, PlainKey x.key)
    (hvalues : ∀ x ∈ m :: ms, Scans x.text x.value) (hnodup : ((m :: ms).map Field.key).Nodup) :
    loads (openBrace :: (fieldText m ++ fieldsText ms)) =
      some (.object ((m :: ms).map Field.member)) := by
  obtain ⟨tail, htail⟩ : ∃ tail, fieldText m ++ fieldsText ms = quote :: tail :=
    ⟨m.key ++ quote :: colon :: m.text ++ fieldsText ms, by simp [fieldText]⟩
  obtain ⟨fuel, hfuel⟩ : ∃ fuel, (openBrace :: (fieldText m ++ fieldsText ms)).length =
      ms.length + fuel + 2 := by
    have hlen := length_le_fieldsText ms
    have hmember : 1 ≤ (fieldText m).length := by simp [fieldText]
    refine ⟨(fieldText m).length + (fieldsText ms).length - 1 - ms.length, ?_⟩
    rw [List.length_cons, List.length_append]
    omega
  have hmembers : scanMembers (ms.length + fuel + 2) (fieldText m ++ (fieldsText ms ++ [])) =
      some ((m :: ms).map Field.member, []) := scanMembers_text m ms hkeys hvalues
  have hdict : dict ((m :: ms).map Field.member) = .object ((m :: ms).map Field.member) := by
    apply dict_of_nodup _
    have := hnodup.map points_injective
    rw [List.map_map] at this ⊢
    exact this
  rw [List.append_nil, ← hfuel] at hmembers
  rw [htail] at hmembers ⊢
  have hvalue : scanValue ((openBrace :: quote :: tail).length + 1) (openBrace :: quote :: tail) =
      some (.object ((m :: ms).map Field.member), []) := by
    have hspace : skipSpace (quote :: tail) = quote :: tail := rfl
    rw [scanValue, if_neg (by decide), if_pos rfl, hspace, if_neg (by simp [quote, closeBrace]),
      hmembers, ← hdict]
    rfl
  have hutf8 : detectsUtf8 (openBrace :: quote :: tail) = true := by
    simp [detectsUtf8, List.isPrefixOf, openBrace, quote]
  have hmark : byteOrderMark.isPrefixOf (openBrace :: quote :: tail) = false := by
    simp [byteOrderMark, List.isPrefixOf, openBrace]
  have hspace : skipSpace (openBrace :: quote :: tail) = openBrace :: quote :: tail := rfl
  simp only [loads, hutf8, if_true, hmark, Bool.false_eq_true, if_false, hspace, hvalue]
  rfl

end Foundation.Json
