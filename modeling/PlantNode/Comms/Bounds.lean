import PlantNode.Comms.ReceivePath

/-!
# The bounds of the receive path

Every write of the receive path stays in its buffer, but for the decryption of a
command: `crypto_decrypt` is not told the size of `plainBuf`.
-/

namespace PlantNode.Comms

open Foundation Crypto

variable {K : Type} {box : SecretBox K} {s : ReceivePath K} {a : ReceiveAction K}

/-- A command that is decrypted is not too long for `plainBuf`. -/
def ReceiveAction.Fits (s : ReceivePath K) : ReceiveAction K → Prop
  | .deliver valid topic payload =>
      valid = true → topic = TopicCommands → s.session.sSessionReady = true →
        payload.length ≤ 8 + hydroSecretboxHeaderBytes + plainBufSize
  | _ => True

/-- What a step adds to the uses: safe ones, or writes into `plainBuf`. -/
def Adds (s t : ReceivePath K) (fits : Prop) : Prop :=
  ∃ new, t.uses = s.uses ++ new ∧ ((∀ use ∈ new, use.Safe) ↔ fits) ∧
    ∀ use ∈ new, use.Safe ∨ ∃ bytes, use = .write .plainBuf bytes

theorem adds_safe {t : ReceivePath K} {fits : Prop} {new : List Use}
    (huses : t.uses = s.uses ++ new) (hsafe : ∀ use ∈ new, use.Safe) (hfits : fits) :
    Adds s t fits :=
  ⟨new, huses, iff_of_true hsafe hfits, fun use huse ↦ .inl (hsafe use huse)⟩

theorem adds_nothing {t : ReceivePath K} {fits : Prop} (huses : t.uses = s.uses) (hfits : fits) :
    Adds s t fits :=
  ⟨[], by rw [huses, List.append_nil], iff_of_true (by simp) hfits, by simp⟩

theorem receiveCommand_uses (box : SecretBox K) (s : ReceivePath K) (payload : List UInt8) :
    (receiveCommand box s payload).uses =
      s.uses ++ cryptoDecryptUses s.session (some payload) true := by
  rw [receiveCommand]
  split
  · rfl
  · split <;> rfl

theorem cryptoDecryptUses_safe (s : Session K) (payload : List UInt8) :
    ∀ use ∈ cryptoDecryptUses s (some payload) true,
      use.Safe ∨ ∃ bytes, use = .write .plainBuf bytes := by
  intro use huse
  simp only [cryptoDecryptUses, Bool.not_true, Bool.false_eq_true, if_false] at huse
  split at huse
  · cases huse
  split at huse
  · cases huse
  · rename_i hlong
    have h₁ : 8 ≤ payload.length := by omega
    have h₂ : hydroSecretboxHeaderBytes ≤ payload.length - 8 := by omega
    rcases List.mem_cons.mp huse with rfl | huse
    · exact .inl h₁
    rcases List.mem_cons.mp huse with rfl | huse
    · exact .inl h₂
    · exact .inr ⟨_, List.mem_singleton.mp huse⟩

theorem deliver_adds (valid : Bool) (topic payload : List UInt8) :
    Adds s (deliver box s valid topic payload)
      (ReceiveAction.Fits s (.deliver valid topic payload)) := by
  rw [deliver]
  cases valid with
  | false => exact adds_nothing rfl (by simp [ReceiveAction.Fits])
  | true =>
      rw [Bool.not_true, if_neg Bool.false_ne_true]
      split
      · rename_i htopic
        refine ⟨_, receiveCommand_uses box s payload, ?_, cryptoDecryptUses_safe _ _⟩
        rw [safe_cryptoDecryptUses, ReceiveAction.Fits]
        simp only [htopic, true_imp_iff]
        rfl
      rename_i htopic
      have hfits : ReceiveAction.Fits s (.deliver true topic payload) :=
        fun _ h ↦ absurd h htopic
      split
      · rw [receiveAttestation]
        split
        · exact adds_nothing rfl hfits
        split
        · exact adds_nothing rfl hfits
        split
        · exact adds_nothing rfl hfits
        · rename_i hlen
          exact adds_safe rfl (List.forall_mem_singleton.mpr (Nat.not_lt.mp hlen)) hfits
      · exact adds_nothing rfl hfits

theorem take_adds (outputs : Bool) : Adds s (takeRaMessage s outputs).2 True := by
  rw [takeRaMessage]
  split
  · exact adds_nothing rfl trivial
  split
  · exact adds_nothing rfl trivial
  · exact adds_safe rfl (List.forall_mem_singleton.mpr s.slot.sRaLen_le) trivial

theorem step_adds (box : SecretBox K) (s : ReceivePath K) (a : ReceiveAction K) :
    Adds s (s.step box a) (a.Fits s) := by
  cases a with
  | keyExchange outputs kx => exact adds_nothing rfl trivial
  | encrypt reading outputs seed => exact adds_nothing rfl trivial
  | deliver valid topic payload => exact deliver_adds valid topic payload
  | take outputs => exact take_adds outputs

/-- All uses of buffers and lengths are safe exactly if no message of more than 300 bytes
arrives on the command topic in a session; and nothing else ever is unsafe. -/
theorem receive_path_bounds (box : SecretBox K) (zero : K) (acts : List (ReceiveAction K)) :
    ((∀ use ∈ (ReceivePath.run box zero acts).uses, use.Safe) ↔
      EachAfter (fun past a ↦ a.Fits (ReceivePath.run box zero past)) acts) ∧
    ∀ use ∈ (ReceivePath.run box zero acts).uses,
      use.Safe ∨ ∃ bytes, use = .write .plainBuf bytes := by
  induction acts using List.reverseRecOn with
  | nil => exact ⟨⟨fun _ ↦ EachAfter.nil, fun _ ↦ List.forall_mem_nil _⟩, List.forall_mem_nil _⟩
  | append_singleton acts a ih =>
      obtain ⟨hiff, hall⟩ := ih
      obtain ⟨new, huses, hnew, hnewAll⟩ := step_adds box (ReceivePath.run box zero acts) a
      rw [ReceivePath.run_snoc, eachAfter_snoc, huses, ← hiff, ← hnew]
      exact ⟨List.forall_mem_append, List.forall_mem_append.mpr ⟨hall, hnewAll⟩⟩

/-- A command of 400 bytes, once the session is ready. -/
theorem plainBuf_overflow :
    ¬∀ acts : List (ReceiveAction ℕ),
      (∀ valid topic payload, .deliver valid topic payload ∈ acts → payload.length ≤ 1024) →
        ∀ use ∈ (ReceivePath.run .tagged 0 acts).uses, use.Safe := by
  intro hall
  have hlen : ∀ valid topic payload, .deliver valid topic payload ∈
      [.keyExchange true (some ⟨7, 9, List.replicate 48 0⟩),
        ReceiveAction.deliver true TopicCommands (List.replicate 400 0)] →
      payload.length ≤ 1024 := by
    intro valid topic payload hmem
    rcases List.mem_cons.mp hmem with h | hmem
    · cases h
    · cases List.mem_singleton.mp hmem
      rw [List.length_replicate]
      norm_num
  have huse : .write .plainBuf 356 ∈ (ReceivePath.run .tagged 0
      [.keyExchange true (some ⟨7, 9, List.replicate 48 0⟩),
        .deliver true TopicCommands (List.replicate 400 0)]).uses := by
    decide +kernel
  exact absurd (hall _ hlen _ huse) (by decide)

end PlantNode.Comms
