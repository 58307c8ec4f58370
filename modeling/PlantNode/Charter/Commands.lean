import Mathlib.Data.Rat.Floor
import PlantNode.Charter.Encryption

/-!
# Commands of the charter

`commands.py`, and the part of `main.py` that keeps the sessions.  A `dict` is the
list of its items in insertion order.
-/

namespace PlantNode.Charter

open Foundation Crypto

universe u v

/-- `d[key] = value`: a new key goes to the end, an old one keeps its place. -/
def dictSet {α : Type u} {β : Type v} [DecidableEq α] (key : α) (value : β) :
    List (α × β) → List (α × β)
  | [] => [(key, value)]
  | item :: items =>
      if item.1 = key then (key, value) :: items else item :: dictSet key value items

def dictGet {α : Type u} {β : Type v} [DecidableEq α] (key : α) (default : β)
    (items : List (α × β)) : β :=
  match items.find? fun item ↦ item.1 = key with
  | none => default
  | some item => item.2

theorem mem_dictSet {α : Type u} {β : Type v} [DecidableEq α] {key : α} {value : β}
    {items : List (α × β)} {item : α × β} (h : item ∈ dictSet key value items) :
    item = (key, value) ∨ item ∈ items := by
  induction items with
  | nil => exact .inl (List.mem_singleton.mp h)
  | cons first items ih =>
      simp only [dictSet] at h
      split at h
      · rcases List.mem_cons.mp h with rfl | h
        · exact .inl rfl
        · exact .inr (List.mem_cons_of_mem _ h)
      · rcases List.mem_cons.mp h with rfl | h
        · exact .inr List.mem_cons_self
        · exact (ih h).imp_right (List.mem_cons_of_mem _)

theorem pairwise_dictSet {α : Type u} {β : Type v} [DecidableEq α] {key : α} {value : β}
    {items : List (α × β)} {R : α × β → α × β → Prop} (h : items.Pairwise R)
    (hleft : ∀ item, R item (key, value)) (hright : ∀ item, R (key, value) item) :
    (dictSet key value items).Pairwise R := by
  induction items with
  | nil => exact List.pairwise_singleton ..
  | cons first items ih =>
      obtain ⟨hfirst, hrest⟩ := List.pairwise_cons.mp h
      simp only [dictSet]
      split
      · exact List.pairwise_cons.mpr ⟨fun item _ ↦ hright item, hrest⟩
      · refine List.pairwise_cons.mpr ⟨fun item hitem ↦ ?_, ih hrest⟩
        rcases mem_dictSet hitem with rfl | hitem
        · exact hleft first
        · exact hfirst item hitem

section Dictionaries

variable {α : Type u} {β : Type v} [DecidableEq α] {key other : α} {value default : β}
  {items : List (α × β)}

@[simp] theorem dictGet_dictSet_self :
    dictGet key default (dictSet key value items) = value := by
  induction items with
  | nil => simp [dictSet, dictGet]
  | cons first items ih =>
      by_cases hfirst : first.1 = key
      · simp [dictSet, dictGet, hfirst]
      · simpa [dictSet, dictGet, hfirst] using ih

theorem dictGet_dictSet_ne (h : other ≠ key) :
    dictGet other default (dictSet key value items) = dictGet other default items := by
  induction items with
  | nil => simp [dictSet, dictGet, h.symm]
  | cons first items ih =>
      by_cases hfirst : first.1 = key
      · simp [dictSet, dictGet, hfirst, h.symm]
      · by_cases hother : first.1 = other
        · simp [dictSet, dictGet, hother, h]
        · simpa [dictSet, dictGet, hfirst, hother] using ih

theorem mem_keys_dictSet (h : other ∈ (dictSet key value items).map Prod.fst) :
    other = key ∨ other ∈ items.map Prod.fst := by
  obtain ⟨item, hitem, rfl⟩ := List.mem_map.mp h
  rcases mem_dictSet hitem with rfl | hitem
  · exact .inl rfl
  · exact .inr (List.mem_map_of_mem hitem)

theorem nodup_keys_dictSet (h : (items.map Prod.fst).Nodup) :
    ((dictSet key value items).map Prod.fst).Nodup := by
  induction items with
  | nil => exact List.nodup_singleton key
  | cons first items ih =>
      obtain ⟨hfirst, hrest⟩ := List.nodup_cons.mp h
      simp only [dictSet]
      split
      · rename_i hkey
        exact List.nodup_cons.mpr ⟨hkey ▸ hfirst, hrest⟩
      · rename_i hkey
        refine List.nodup_cons.mpr ⟨fun hmem ↦ ?_, ih hrest⟩
        rcases mem_keys_dictSet hmem with heq | hmem
        · exact hkey heq
        · exact hfirst hmem

theorem dictGet_of_mem (h : (items.map Prod.fst).Nodup) (hmem : (key, value) ∈ items) :
    dictGet key default items = value := by
  induction items with
  | nil => cases hmem
  | cons first items ih =>
      obtain ⟨hfirst, hrest⟩ := List.nodup_cons.mp h
      rcases List.mem_cons.mp hmem with rfl | hmem
      · simp [dictGet]
      · have hne : first.1 ≠ key := by
          intro heq
          exact hfirst (heq ▸ List.mem_map_of_mem hmem)
        simpa [dictGet, hne] using ih hrest hmem

theorem dictGet_of_notMem (h : key ∉ items.map Prod.fst) :
    dictGet key default items = default := by
  have hnone : items.find? (fun item ↦ item.1 = key) = none := by
    refine List.find?_eq_none.mpr fun item hitem hkey ↦ h ?_
    exact List.mem_map.mpr ⟨item, hitem, of_decide_eq_true hkey⟩
  simp only [dictGet, hnone]

end Dictionaries

structure SensorSession (K : Type) where
  rxKey : K
  txKey : K
  txMsgId : ℕ

structure AppState (K : Type) where
  sessions : List (List UInt8 × SensorSession K)
  mqttClient : Bool
  lastSentTimestamp : List (List UInt8 × ℤ)

def AppState.start (K : Type) : AppState K where
  sessions := []
  mqttClient := false
  lastSentTimestamp := []

def buildThresholdCommand (timestamp threshold : ℤ) : List UInt8 :=
  ascii "\x7b\"timestamp\":" ++ decimalInt timestamp ++ ascii ",\"threshold\":" ++
    decimalInt threshold ++ ascii "\x7d"

variable {K : Type}

/-- Whether `send_threshold_update` warned of a second command within one second, and
what it published. -/
structure Sent where
  warned : Bool
  published : Except PyError (Option (List UInt8))

/-- `int(x)` of a float: its integer part. -/
def intPart (x : ℚ) : ℤ := x.num.tdiv x.den

theorem intPart_of_nonneg {x : ℚ} (h : 0 ≤ x) : intPart x = ⌊x⌋ := by
  rw [intPart, Int.tdiv_eq_ediv_of_nonneg (Rat.num_nonneg.mpr h), Rat.floor_def']

/-- `send_threshold_update`; `now` is what `int(time.time())` gave. -/
def sendThresholdUpdate (box : SecretBox K) (state : AppState K) (threshold now : ℤ) (seed : ℕ) :
    Sent × AppState K :=
  match state.sessions with
  | [] => (⟨false, .ok none⟩, state)
  | (deviceId, session) :: others =>
      if !state.mqttClient then (⟨false, .ok none⟩, state)
      else
        let warned := decide (now ≤ dictGet deviceId (-1) state.lastSentTimestamp)
        let state := { state with
          lastSentTimestamp := dictSet deviceId now state.lastSentTimestamp }
        let plaintext := buildThresholdCommand now threshold
        match encryptCommand box session.txKey session.txMsgId seed plaintext with
        | .error e => (⟨warned, .error e⟩, state)
        | .ok ciphertext =>
            (⟨warned, .ok (some ciphertext)⟩, { state with
              sessions := (deviceId, { session with txMsgId := session.txMsgId + 1 }) :: others })

/-- `on_message` for a key packet; `recover` is what `recover_session_keys` computes,
the receiving key and the sending key. -/
def onKeyMessage (recover : List UInt8 → Option (K × K)) (state : AppState K)
    (deviceId payload : List UInt8) : AppState K :=
  if payload.length ≠ 48 then state
  else match recover payload with
    | none => state
    | some (rxKey, txKey) =>
        { state with sessions := dictSet deviceId ⟨rxKey, txKey, 0⟩ state.sessions }

end PlantNode.Charter
