import PlantNode.Foundation.JsonObjects

/-!
# Printing JSON

The default output of a general JSON printer: ASCII only, `", "` between items and
`": "` after a key.  A float is known by its text only, so how one is printed is a
parameter.
-/

namespace Foundation.Json

def hexLower (n : ℕ) : UInt8 := if n < 10 then digitByte n else UInt8.ofNat (0x57 + n)

/-- `\u` and four digits. -/
def unicodeText (n : ℕ) : List UInt8 :=
  ascii "\\u" ++ [hexLower (n / 0x1000 % 16), hexLower (n / 0x100 % 16), hexLower (n / 16 % 16),
    hexLower (n % 16)]

def escapePoint (p : ℕ) : List UInt8 :=
  if p = quote.toNat ∨ p = backslash.toNat then [backslash, UInt8.ofNat p]
  else if p = 0x08 then ascii "\\b"
  else if p = 0x0c then ascii "\\f"
  else if p = 0x0a then ascii "\\n"
  else if p = 0x0d then ascii "\\r"
  else if p = 0x09 then ascii "\\t"
  else if 0x20 ≤ p ∧ p ≤ 0x7e then [UInt8.ofNat p]
  else if p < 0x10000 then unicodeText p
  else unicodeText (0xd800 + (p - 0x10000) / 0x400 % 0x400) ++
    unicodeText (0xdc00 + (p - 0x10000) % 0x400)

def stringText (s : List ℕ) : List UInt8 := quote :: s.flatMap escapePoint ++ [quote]

mutual

def dumps (float : List UInt8 → List UInt8) : Json → List UInt8
  | .null => ascii "null"
  | .bool true => ascii "true"
  | .bool false => ascii "false"
  | .int n => decimalInt n
  | .float text => float text
  | .string s => stringText s
  | .array items => openBracket :: dumpItems float items ++ [closeBracket]
  | .object members => openBrace :: dumpMembers float members ++ [closeBrace]

def dumpItems (float : List UInt8 → List UInt8) : List Json → List UInt8
  | [] => []
  | item :: rest =>
      match rest with
      | [] => dumps float item
      | _ :: _ => dumps float item ++ ascii ", " ++ dumpItems float rest

def dumpMembers (float : List UInt8 → List UInt8) : List (List ℕ × Json) → List UInt8
  | [] => []
  | m :: rest =>
      match rest with
      | [] => dumpMember float m
      | _ :: _ => dumpMember float m ++ ascii ", " ++ dumpMembers float rest

def dumpMember (float : List UInt8 → List UInt8) : List ℕ × Json → List UInt8
  | (key, value) => stringText key ++ ascii ": " ++ dumps float value

end

/-! ## Printable strings -/

/-- A string of printable ASCII characters that no printer escapes. -/
def Printable (text : List UInt8) : Prop :=
  ∀ c ∈ text, 0x20 ≤ c ∧ c ≤ 0x7e ∧ c ≠ quote ∧ c ≠ backslash

instance (text : List UInt8) : Decidable (Printable text) :=
  decidable_of_iff
    (text.all (fun c ↦ decide (0x20 ≤ c ∧ c ≤ 0x7e ∧ c ≠ quote ∧ c ≠ backslash)) = true)
    (by simp only [List.all_eq_true, decide_eq_true_eq]; rfl)

variable {text : List UInt8}

theorem Printable.plainKey (h : Printable text) : PlainKey text := by
  intro c hc
  obtain ⟨hlow, hhigh, hmarks⟩ := h c hc
  exact ⟨hlow, UInt8.lt_of_le_of_lt hhigh (by decide), hmarks⟩

theorem Printable.not_mem_quote (h : Printable text) : quote ∉ text :=
  fun hmem ↦ (h quote hmem).2.2.1 rfl

theorem escapePoint_printable {c : UInt8} (hlow : 0x20 ≤ c) (hhigh : c ≤ 0x7e)
    (hquote : c ≠ quote) (hslash : c ≠ backslash) : escapePoint c.toNat = [c] := by
  have hlow : 0x20 ≤ c.toNat := UInt8.le_iff_toNat_le.mp hlow
  have hhigh : c.toNat ≤ 0x7e := UInt8.le_iff_toNat_le.mp hhigh
  have hquote : c.toNat ≠ quote.toNat := fun h ↦ hquote (UInt8.toNat_inj.mp h)
  have hslash : c.toNat ≠ backslash.toNat := fun h ↦ hslash (UInt8.toNat_inj.mp h)
  rw [escapePoint, if_neg (by simp [hquote, hslash]), if_neg (by omega), if_neg (by omega),
    if_neg (by omega), if_neg (by omega), if_neg (by omega), if_pos ⟨hlow, hhigh⟩,
    UInt8.ofNat_toNat]

theorem stringText_points (h : Printable text) :
    stringText (points text) = quote :: text ++ [quote] := by
  have hflat : (points text).flatMap escapePoint = text := by
    induction text with
    | nil => rfl
    | cons c text ih =>
        obtain ⟨hlow, hhigh, hquote, hslash⟩ := h c List.mem_cons_self
        have ih : (points text).flatMap escapePoint = text :=
          ih fun x hx ↦ h x (List.mem_cons_of_mem _ hx)
        rw [points, List.map_cons, List.flatMap_cons,
          escapePoint_printable hlow hhigh hquote hslash]
        exact congrArg (c :: ·) ih
  rw [stringText, hflat]

end Foundation.Json
