import PlantNode.Driver.Calls

/-!
# The ledger is an invariant

A step of the machine is made of a few primitive steps of the ledger: opening a
call, letting sleepers drift, moving one thread, entering a batch, issuing a
transfer and returning.
-/

namespace PlantNode.Driver

open Foundation

structure Ledger (s : State) : Prop where
  numbered : ∀ e ∈ s.trace, ∀ id, e.call? = some id → id < s.calls
  once : ∀ id me me' request request', .called id me request ∈ s.trace →
    .called id me' request' ∈ s.trace → me = me' ∧ request = request'
  current : ∀ u id, (s.threads u).call? = some id →
    (∃ request, .called id u request ∈ s.trace) ∧ ∀ me ret, .returned id me ret ∉ s.trace
  claims : ∀ u c, (s.threads u).claim? = some c →
    Opens s.trace u c ∧ ∀ me b, .entered me b ∈ s.trace → b.call ≠ c.call
  batches : ∀ u b, (s.threads u).batch? = some b →
    .entered u b ∈ s.trace ∧ Progress u (transfersOf b.call s.trace) (s.threads u)
  entered : ∀ me b, .entered me b ∈ s.trace →
    (∃ c, Opens s.trace me c ∧ c.batch? = some b) ∧
      ((s.threads me).batch? = some b ∨
        ∃ ret, .returned b.call me ret ∈ s.trace ∧
          Outcome me b ret (transfersOf b.call s.trace))
  issued : ∀ x, .transfer x ∈ s.trace → ∃ b, .entered x.thread b ∈ s.trace ∧ b.call = x.call
  returnedOnce : ∀ id me me' ret ret', .returned id me ret ∈ s.trace →
    .returned id me' ret' ∈ s.trace → ret = ret'

theorem Opens.of_prefix {l l' : List Event} {me : ThreadId} {c : Claim} (h : Opens l me c)
    (hl : l <+: l') : Opens l' me c := by
  obtain ⟨request, t, hcalled, hstart⟩ := h
  exact ⟨request, t, hl.subset hcalled, hstart⟩

theorem Opens.snoc {trace : List Event} {me : ThreadId} {c : Claim} (h : Opens trace me c)
    (e : Event) : Opens (trace ++ [e]) me c :=
  h.of_prefix (List.prefix_append _ _)

theorem Opens.same {trace : List Event} {me me' : ThreadId} {c c' : Claim}
    (h : Opens trace me c) (h' : Opens trace me' c') (hcall : c.call = c'.call)
    (once : ∀ id me me' request request', .called id me request ∈ trace →
      .called id me' request' ∈ trace → me = me' ∧ request = request') :
    me = me' ∧ c = c' := by
  obtain ⟨request, t, hcalled, hstart⟩ := h
  obtain ⟨request', t', hcalled', hstart'⟩ := h'
  rw [← hcall] at hcalled' hstart'
  obtain ⟨rfl, rfl⟩ := once _ _ _ _ _ hcalled hcalled'
  rw [hstart] at hstart'
  cases hstart'
  exact ⟨rfl, rfl⟩

namespace Ledger

theorem boot : Ledger .boot where
  numbered := by simp [State.boot]
  once := by simp [State.boot]
  current := by simp [State.boot, Pc.call?, Pc.claim?, Pc.batch?]
  claims := by simp [State.boot, Pc.claim?]
  batches := by simp [State.boot, Pc.batch?]
  entered := by simp [State.boot]
  issued := by simp [State.boot]
  returnedOnce := by simp [State.boot]

variable {s : State}

theorem not_entered_of_claim (h : Ledger s) {u : ThreadId} {c : Claim}
    (hc : (s.threads u).claim? = some c) : transfersOf c.call s.trace = [] := by
  refine List.eq_nil_iff_forall_not_mem.mpr fun x hx ↦ ?_
  obtain ⟨hmem, hcall⟩ := mem_transfersOf.mp hx
  obtain ⟨b, hentered, hb⟩ := h.issued x hmem
  exact (h.claims u c hc).2 _ b hentered (hb.trans hcall)

theorem thread_of_call (h : Ledger s) {u v : ThreadId} {id : ℕ}
    (hu : (s.threads u).call? = some id) (hv : (s.threads v).call? = some id) : u = v := by
  obtain ⟨⟨request, hcalled⟩, -⟩ := h.current u id hu
  obtain ⟨⟨request', hcalled'⟩, -⟩ := h.current v id hv
  exact (h.once _ _ _ _ _ hcalled hcalled').1

theorem entered_same (h : Ledger s) {me me' : ThreadId} {b b' : Batch}
    (hb : .entered me b ∈ s.trace) (hb' : .entered me' b' ∈ s.trace)
    (hcall : b.call = b'.call) : me = me' ∧ b = b' := by
  obtain ⟨⟨c, hopens, hc⟩, -⟩ := h.entered me b hb
  obtain ⟨⟨c', hopens', hc'⟩, -⟩ := h.entered me' b' hb'
  obtain ⟨steps, -, rfl⟩ := Option.map_eq_some_iff.mp hc
  obtain ⟨steps', -, rfl⟩ := Option.map_eq_some_iff.mp hc'
  obtain ⟨rfl, rfl⟩ := hopens.same hopens' hcall h.once
  rw [hc] at hc'
  exact ⟨rfl, Option.some.inj hc'⟩

theorem outcome_of_returned (h : Ledger s) {me me' : ThreadId} {b : Batch} {ret : Ret}
    (hentered : .entered me b ∈ s.trace) (hreturned : .returned b.call me' ret ∈ s.trace) :
    Outcome me b ret (transfersOf b.call s.trace) := by
  rcases (h.entered me b hentered).2 with hcurrent | ⟨ret', hreturned', houtcome⟩
  · exact ((h.current me _ (Pc.call?_of_batch hcurrent)).2 _ _ hreturned).elim
  · rwa [h.returnedOnce _ _ _ _ _ hreturned hreturned']

/-! ## One more event -/

section Snoc

variable {e : Event}

theorem numbered_snoc (h : Ledger s) {n : ℕ} (hn : s.calls ≤ n)
    (he : ∀ id, e.call? = some id → id < n) :
    ∀ x ∈ s.trace ++ [e], ∀ id, x.call? = some id → id < n := by
  intro x hx id hid
  rcases List.mem_append.mp hx with hx | hx
  · exact (h.numbered x hx id hid).trans_le hn
  · rw [List.mem_singleton.mp hx] at hid
    exact he id hid

theorem once_snoc (h : Ledger s) (he : ∀ id me request, .called id me request ≠ e) :
    ∀ id me me' request request', .called id me request ∈ s.trace ++ [e] →
      .called id me' request' ∈ s.trace ++ [e] → me = me' ∧ request = request' :=
  fun id me me' request request' h₁ h₂ ↦ h.once id me me' request request'
    (mem_of_mem_snoc h₁ (he _ _ _)) (mem_of_mem_snoc h₂ (he _ _ _))

theorem current_snoc (h : Ledger s) {u : ThreadId} {id : ℕ}
    (hu : (s.threads u).call? = some id) (he : ∀ me ret, .returned id me ret ≠ e) :
    (∃ request, .called id u request ∈ s.trace ++ [e]) ∧
      ∀ me ret, .returned id me ret ∉ s.trace ++ [e] := by
  obtain ⟨⟨request, hcalled⟩, hopen⟩ := h.current u id hu
  refine ⟨⟨request, List.mem_append_left _ hcalled⟩, fun me ret hmem ↦ ?_⟩
  exact hopen me ret (mem_of_mem_snoc hmem (he me ret))

theorem claims_snoc (h : Ledger s) {u : ThreadId} {c : Claim}
    (hc : (s.threads u).claim? = some c) (he : ∀ me b, .entered me b = e → b.call ≠ c.call) :
    Opens (s.trace ++ [e]) u c ∧ ∀ me b, .entered me b ∈ s.trace ++ [e] → b.call ≠ c.call := by
  obtain ⟨hopens, hfresh⟩ := h.claims u c hc
  refine ⟨hopens.snoc _, fun me b hmem ↦ ?_⟩
  rcases List.mem_append.mp hmem with hmem | hmem
  · exact hfresh me b hmem
  · exact he me b (List.mem_singleton.mp hmem)

theorem issued_snoc (h : Ledger s)
    (he : ∀ x, .transfer x = e → ∃ b, .entered x.thread b ∈ s.trace ∧ b.call = x.call) :
    ∀ x, .transfer x ∈ s.trace ++ [e] →
      ∃ b, .entered x.thread b ∈ s.trace ++ [e] ∧ b.call = x.call := by
  intro x hx
  have hold : ∃ b, .entered x.thread b ∈ s.trace ∧ b.call = x.call := by
    rcases List.mem_append.mp hx with hx | hx
    · exact h.issued x hx
    · exact he x (List.mem_singleton.mp hx)
  obtain ⟨b, hmem, hb⟩ := hold
  exact ⟨b, List.mem_append_left _ hmem, hb⟩

theorem returnedOnce_snoc (h : Ledger s) (he : ∀ id me ret, .returned id me ret ≠ e) :
    ∀ id me me' ret ret', .returned id me ret ∈ s.trace ++ [e] →
      .returned id me' ret' ∈ s.trace ++ [e] → ret = ret' :=
  fun id me me' ret ret' h₁ h₂ ↦ h.returnedOnce id me me' ret ret'
    (mem_of_mem_snoc h₁ (he _ _ _)) (mem_of_mem_snoc h₂ (he _ _ _))

end Snoc

/-! ## Primitive steps -/

theorem drift (h : Ledger s) {t : State} (htrace : t.trace = s.trace)
    (hcalls : t.calls = s.calls) (hdrift : ∀ u, (s.threads u).Drifts (t.threads u)) :
    Ledger t where
  numbered := by
    rw [htrace, hcalls]
    exact h.numbered
  once := by
    rw [htrace]
    exact h.once
  current u id hu := by
    rw [htrace]
    exact h.current u id ((hdrift u).call? ▸ hu)
  claims u c hc := by
    rw [htrace]
    exact h.claims u c ((hdrift u).claim? ▸ hc)
  batches u b hb := by
    rw [(hdrift u).batch?] at hb
    rw [htrace, (hdrift u).eq_of_batch hb]
    exact h.batches u b hb
  entered me b hb := by
    rw [htrace] at hb ⊢
    rw [(hdrift me).batch?]
    exact h.entered me b hb
  issued := by
    rw [htrace]
    exact h.issued
  returnedOnce := by
    rw [htrace]
    exact h.returnedOnce

theorem commit (h : Ledger s) (r : Reservations) (woke : Bool) : Ledger (s.commit r woke) :=
  h.drift rfl rfl (s.commit_drifts r woke)

/-- An event that neither enters, issues nor returns; a call it opens is new. -/
theorem emit_quiet (h : Ledger s) (e : Event) (n : ℕ) (hn : s.calls ≤ n)
    (hnumber : ∀ id, e.call? = some id → id < n)
    (hnew : ∀ id me request, e = .called id me request → s.calls ≤ id)
    (hentered : ∀ me b, e ≠ .entered me b) (htransfer : ∀ x, e ≠ .transfer x)
    (hreturned : ∀ id me ret, e ≠ .returned id me ret) :
    Ledger ({ s with calls := n }.emit e) := by
  have hold : ∀ id me request u q, e = .called id me request →
      .called id u q ∉ s.trace := fun id me request u q he hmem ↦
    absurd (h.numbered _ hmem _ rfl) (Nat.not_lt.mpr (hnew id me request he))
  have hsilent : e.transfer? = none := by
    cases e <;> first | rfl | exact (htransfer _ rfl).elim
  constructor
  case numbered => exact h.numbered_snoc hn hnumber
  case once =>
    intro id me me' request request' h₁ h₂
    rcases List.mem_append.mp h₁ with h₁ | h₁ <;> rcases List.mem_append.mp h₂ with h₂ | h₂
    · exact h.once _ _ _ _ _ h₁ h₂
    · exact (hold _ _ _ _ _ (List.mem_singleton.mp h₂).symm h₁).elim
    · exact (hold _ _ _ _ _ (List.mem_singleton.mp h₁).symm h₂).elim
    · have := (List.mem_singleton.mp h₁).trans (List.mem_singleton.mp h₂).symm
      cases this
      exact ⟨rfl, rfl⟩
  case current => exact fun u id hu ↦ h.current_snoc hu fun me ret ↦ (hreturned _ _ _).symm
  case claims =>
    exact fun u c hc ↦ h.claims_snoc hc fun me b he ↦ absurd he.symm (hentered me b)
  case batches =>
    intro u b hb
    obtain ⟨hmem, hprogress⟩ := h.batches u b hb
    refine ⟨List.mem_append_left _ hmem, ?_⟩
    rw [State.emit_trace, transfersOf_silent hsilent]
    exact hprogress
  case entered =>
    intro me b hb
    obtain ⟨⟨c, hopens, hc⟩, hstate⟩ := h.entered me b (mem_of_mem_snoc hb (hentered _ _).symm)
    refine ⟨⟨c, hopens.snoc _, hc⟩, hstate.imp_right ?_⟩
    rintro ⟨ret, hmem, houtcome⟩
    rw [State.emit_trace, transfersOf_silent hsilent]
    exact ⟨ret, List.mem_append_left _ hmem, houtcome⟩
  case issued => exact h.issued_snoc fun x he ↦ absurd he.symm (htransfer x)
  case returnedOnce => exact h.returnedOnce_snoc fun id me ret ↦ (hreturned id me ret).symm

theorem emit_claimed (h : Ledger s) (c : Claim) (i : Slot) (e : Reservation) (tick : ℕ) :
    Ledger (s.emit (.claimed c i e tick)) :=
  h.emit_quiet _ s.calls le_rfl (by simp [Event.call?]) (by simp) (by simp) (by simp) (by simp)

theorem opened (h : Ledger s) (me : ThreadId) (request : Request) :
    Ledger (s.opened me request) := by
  refine h.emit_quiet (.called s.calls me request) (s.calls + 1) (Nat.le_succ _) ?_ ?_
    (by simp) (by simp) (by simp)
  · intro id hid
    cases hid
    exact Nat.lt_succ_self _
  · intro id u q he
    cases he
    exact le_rfl

theorem move (h : Ledger s) {me : ThreadId} {pc : Pc} (hcall : pc.call? = (s.threads me).call?)
    (hclaim : pc.claim? = (s.threads me).claim?) (hbatch : pc.batch? = (s.threads me).batch?)
    (hprogress : ∀ b, pc.batch? = some b → Progress me (transfersOf b.call s.trace) pc) :
    Ledger (s.setPc me pc) where
  numbered := h.numbered
  once := h.once
  current u id hu := h.current u id (s.read_setPc Pc.call? hcall u ▸ hu)
  claims u c hc := h.claims u c (s.read_setPc Pc.claim? hclaim u ▸ hc)
  batches u b hb := by
    rw [State.setPc_threads] at hb ⊢
    by_cases hum : u = me
    · subst hum
      rw [Function.update_self] at hb ⊢
      exact ⟨(h.batches u b (hbatch ▸ hb)).1, hprogress b hb⟩
    · rw [Function.update_of_ne hum] at hb ⊢
      exact h.batches u b hb
  entered u b hb := by
    rw [s.read_setPc Pc.batch? hbatch]
    exact h.entered u b hb
  issued := h.issued
  returnedOnce := h.returnedOnce

theorem start (h : Ledger s) {me : ThreadId} (id : ℕ) {request : Request} {pc : Pc}
    (hidle : s.threads me = .idle) (hcall : pc.call? = some id)
    (hcalled : .called id me request ∈ s.trace)
    (hclaim : ∀ c, pc.claim? = some c → Opens s.trace me c ∧ c.call = id)
    (hbatch : pc.batch? = none) (hunreturned : ∀ u ret, .returned id u ret ∉ s.trace)
    (hunentered : ∀ u b, .entered u b ∈ s.trace → b.call ≠ id) :
    Ledger (s.setPc me pc) where
  numbered := h.numbered
  once := h.once
  current u id' hu := by
    rw [State.setPc_threads] at hu
    by_cases hum : u = me
    · subst hum
      rw [Function.update_self, hcall] at hu
      cases hu
      exact ⟨⟨request, hcalled⟩, hunreturned⟩
    · rw [Function.update_of_ne hum] at hu
      exact h.current u id' hu
  claims u c hc := by
    rw [State.setPc_threads] at hc
    by_cases hum : u = me
    · subst hum
      rw [Function.update_self] at hc
      obtain ⟨hopens, hid⟩ := hclaim c hc
      exact ⟨hopens, hid ▸ hunentered⟩
    · rw [Function.update_of_ne hum] at hc
      exact h.claims u c hc
  batches u b hb := by
    rw [State.setPc_threads] at hb ⊢
    by_cases hum : u = me
    · subst hum
      rw [Function.update_self, hbatch] at hb
      cases hb
    · rw [Function.update_of_ne hum] at hb ⊢
      exact h.batches u b hb
  entered u b hb := by
    obtain ⟨hopens, hstate⟩ := h.entered u b hb
    refine ⟨hopens, hstate.imp_left fun hcurrent ↦ ?_⟩
    rw [State.setPc_threads, Function.update_of_ne]
    · exact hcurrent
    · rintro rfl
      simp [hidle, Pc.batch?] at hcurrent
  issued := h.issued
  returnedOnce := h.returnedOnce

theorem enter (h : Ledger s) {me : ThreadId} {c : Claim} {b : Batch}
    (hc : (s.threads me).claim? = some c) (hcb : c.batch? = some b) :
    Ledger ((s.emit (.entered me b)).setPc me (.reserved b)) := by
  have hcall : b.call = c.call := by
    obtain ⟨steps, -, rfl⟩ := Option.map_eq_some_iff.mp hcb
    rfl
  have hown : (s.threads me).call? = some b.call := hcall ▸ Pc.call?_of_claim hc
  obtain ⟨hopens, hfresh⟩ := h.claims me c hc
  constructor
  case numbered =>
    refine h.numbered_snoc le_rfl fun id hid ↦ ?_
    cases hid
    obtain ⟨request, hcalled⟩ := (h.current me _ hown).1
    exact h.numbered _ hcalled _ rfl
  case once => exact h.once_snoc (by simp)
  case current =>
    intro u id hu
    have hsame : (Pc.reserved b).call? = (s.threads me).call? := hown.symm
    rw [(s.emit (.entered me b)).read_setPc Pc.call? hsame] at hu
    exact h.current_snoc hu (by simp)
  case claims =>
    intro u c' hc'
    rw [State.setPc_threads, State.emit_threads] at hc'
    by_cases hum : u = me
    · subst hum
      simp [Pc.claim?] at hc'
    rw [Function.update_of_ne hum] at hc'
    refine h.claims_snoc hc' fun v b' he hsame ↦ ?_
    cases he
    exact hum (h.thread_of_call (Pc.call?_of_claim hc') (hsame ▸ hown))
  case batches =>
    intro u b' hb'
    rw [State.setPc_threads, State.emit_threads] at hb' ⊢
    rw [State.setPc_trace, State.emit_trace, transfersOf_silent rfl]
    by_cases hum : u = me
    · subst hum
      rw [Function.update_self] at hb' ⊢
      cases hb'
      refine ⟨List.mem_append_right _ (List.mem_singleton_self _), ?_⟩
      exact hcall ▸ h.not_entered_of_claim hc
    · rw [Function.update_of_ne hum] at hb' ⊢
      obtain ⟨hmem, hprogress⟩ := h.batches u b' hb'
      exact ⟨List.mem_append_left _ hmem, hprogress⟩
  case entered =>
    intro u b' hb'
    rw [State.setPc_threads, State.emit_threads, State.setPc_trace, State.emit_trace,
      transfersOf_silent rfl]
    rcases List.mem_append.mp hb' with hmem | hmem
    · obtain ⟨⟨c', hopens', hc'⟩, hstate⟩ := h.entered u b' hmem
      refine ⟨⟨c', hopens'.snoc _, hc'⟩, ?_⟩
      rcases hstate with hcurrent | ⟨ret, hreturned, houtcome⟩
      · left
        rw [Function.update_of_ne]
        · exact hcurrent
        · rintro rfl
          rw [Pc.call?_of_batch hcurrent] at hown
          exact hfresh u b' hmem ((Option.some.inj hown).trans hcall)
      · exact .inr ⟨ret, List.mem_append_left _ hreturned, houtcome⟩
    · cases List.mem_singleton.mp hmem
      exact ⟨⟨c, hopens.snoc _, hcb⟩, .inl (by simp [Pc.batch?])⟩
  case issued => exact h.issued_snoc (by simp)
  case returnedOnce => exact h.returnedOnce_snoc (by simp)

theorem issue (h : Ledger s) {me : ThreadId} {b : Batch} {x : Transfer} {pc : Pc}
    (hb : (s.threads me).batch? = some b) (hthread : x.thread = me) (hcall : x.call = b.call)
    (hbatch : pc.batch? = some b)
    (hprogress : Progress me (transfersOf b.call s.trace ++ [x]) pc) :
    Ledger ((s.emit (.transfer x)).setPc me pc) := by
  have hown : (s.threads me).call? = some b.call := Pc.call?_of_batch hb
  obtain ⟨hentered, -⟩ := h.batches me b hb
  have hclaim : pc.claim? = none := by
    cases pc <;> simp_all [Pc.batch?, Pc.claim?]
  constructor
  case numbered =>
    refine h.numbered_snoc le_rfl fun id hid ↦ ?_
    cases hid
    exact h.numbered _ hentered _ (congrArg some hcall.symm)
  case once => exact h.once_snoc (by simp)
  case current =>
    intro u id hu
    rw [(s.emit (.transfer x)).read_setPc Pc.call? ((Pc.call?_of_batch hbatch).trans hown.symm)]
      at hu
    exact h.current_snoc hu (by simp)
  case claims =>
    intro u c hc
    rw [State.setPc_threads, State.emit_threads] at hc
    by_cases hum : u = me
    · subst hum
      rw [Function.update_self, hclaim] at hc
      cases hc
    · rw [Function.update_of_ne hum] at hc
      exact h.claims_snoc hc (by simp)
  case batches =>
    intro u b' hb'
    rw [State.setPc_threads, State.emit_threads] at hb' ⊢
    rw [State.setPc_trace, State.emit_trace]
    by_cases hum : u = me
    · subst hum
      rw [Function.update_self] at hb' ⊢
      rw [hbatch] at hb'
      cases hb'
      refine ⟨List.mem_append_left _ hentered, ?_⟩
      rw [← hcall, transfersOf_self, hcall]
      exact hprogress
    · rw [Function.update_of_ne hum] at hb' ⊢
      obtain ⟨hmem, hprogress'⟩ := h.batches u b' hb'
      refine ⟨List.mem_append_left _ hmem, ?_⟩
      rw [transfersOf_other]
      · exact hprogress'
      · intro hsame
        refine hum (h.thread_of_call (Pc.call?_of_batch hb') ?_)
        rw [← hsame, hcall, hown]
  case entered =>
    intro u b' hb'
    have hmem := mem_of_mem_snoc hb' (by simp)
    obtain ⟨⟨c, hopens, hc⟩, hstate⟩ := h.entered u b' hmem
    refine ⟨⟨c, hopens.snoc _, hc⟩, ?_⟩
    rw [(s.emit (.transfer x)).read_setPc Pc.batch? (hbatch.trans hb.symm), State.setPc_trace,
      State.emit_trace]
    rcases hstate with hcurrent | ⟨ret, hreturned, houtcome⟩
    · exact .inl hcurrent
    · refine .inr ⟨ret, List.mem_append_left _ hreturned, ?_⟩
      rw [transfersOf_other]
      · exact houtcome
      · intro hsame
        exact (h.current me _ hown).2 u ret (hcall ▸ hsame ▸ hreturned)
  case issued =>
    refine h.issued_snoc fun y he ↦ ?_
    cases he
    exact ⟨b, hthread ▸ hentered, hcall.symm⟩
  case returnedOnce => exact h.returnedOnce_snoc (by simp)

/-- A call returns: either the one its thread is in, or one that was opened and
rejected at once. -/
theorem finish (h : Ledger s) {me : ThreadId} {id : ℕ} {ret : Ret} (hnumber : id < s.calls)
    (hunreturned : ∀ u ret, .returned id u ret ∉ s.trace)
    (hown : ∀ u, (s.threads u).call? = some id → u = me)
    (hme : ∀ b, (s.threads me).batch? = some b →
      b.call = id ∧ Outcome me b ret (transfersOf b.call s.trace)) :
    Ledger (s.finish me id ret) := by
  have hothers : ∀ u, ((s.finish me id ret).threads u).call? ≠ none →
      u ≠ me ∧ (s.finish me id ret).threads u = s.threads u := by
    intro u hu
    have hum : u ≠ me := by
      rintro rfl
      simp [State.finish, Pc.call?, Pc.claim?, Pc.batch?] at hu
    exact ⟨hum, Function.update_of_ne hum _ _⟩
  have htrace : (s.finish me id ret).trace = s.trace ++ [.returned id me ret] := rfl
  constructor
  case numbered =>
    refine h.numbered_snoc le_rfl fun i hi ↦ ?_
    cases hi
    exact hnumber
  case once => exact h.once_snoc (by simp)
  case current =>
    intro u i hu
    obtain ⟨hum, hsame⟩ := hothers u (by simp [hu])
    rw [hsame] at hu
    refine h.current_snoc hu fun v ret' he ↦ ?_
    cases he
    exact hum (hown u hu)
  case claims =>
    intro u c hc
    obtain ⟨-, hsame⟩ := hothers u (by simp [Pc.call?_of_claim hc])
    rw [hsame] at hc
    exact h.claims_snoc hc (by simp)
  case batches =>
    intro u b hb
    obtain ⟨-, hsame⟩ := hothers u (by simp [Pc.call?_of_batch hb])
    rw [hsame] at hb ⊢
    obtain ⟨hmem, hprogress⟩ := h.batches u b hb
    refine ⟨List.mem_append_left _ hmem, ?_⟩
    rw [htrace, transfersOf_silent rfl]
    exact hprogress
  case entered =>
    intro u b hb
    obtain ⟨⟨c, hopens, hc⟩, hstate⟩ := h.entered u b (mem_of_mem_snoc hb (by simp))
    refine ⟨⟨c, hopens.snoc _, hc⟩, ?_⟩
    rw [htrace, transfersOf_silent rfl]
    rcases hstate with hcurrent | ⟨ret', hreturned, houtcome⟩
    · by_cases hum : u = me
      · subst hum
        obtain ⟨rfl, houtcome⟩ := hme b hcurrent
        exact .inr ⟨ret, List.mem_append_right _ (List.mem_singleton_self _), houtcome⟩
      · left
        rw [State.finish, State.setPc_threads, Function.update_of_ne hum]
        exact hcurrent
    · exact .inr ⟨ret', List.mem_append_left _ hreturned, houtcome⟩
  case issued => exact h.issued_snoc (by simp)
  case returnedOnce =>
    intro i u u' ret₁ ret₂ h₁ h₂
    rcases List.mem_append.mp h₁ with h₁ | h₁ <;> rcases List.mem_append.mp h₂ with h₂ | h₂
    · exact h.returnedOnce _ _ _ _ _ h₁ h₂
    · cases List.mem_singleton.mp h₂
      exact (hunreturned _ _ h₁).elim
    · cases List.mem_singleton.mp h₁
      exact (hunreturned _ _ h₂).elim
    · cases List.mem_singleton.mp h₁
      cases List.mem_singleton.mp h₂
      rfl

/-! ## Steps of the machine -/

theorem granted (h : Ledger s) {me : ThreadId} {c : Claim}
    (hc : (s.threads me).claim? = some c) : Ledger (s.granted me c) := by
  have hown : (s.threads me).call? = some c.call := Pc.call?_of_claim hc
  obtain ⟨⟨request, hcalled⟩, hunreturned⟩ := h.current me _ hown
  cases hsteps : c.steps with
  | none =>
      simp only [State.granted, hsteps]
      refine h.finish (h.numbered _ hcalled _ rfl) hunreturned
        (fun u hu ↦ h.thread_of_call hu hown) fun b hb ↦ ?_
      cases hpc : s.threads me <;> simp_all [Pc.claim?, Pc.batch?]
  | some steps =>
      simp only [State.granted, hsteps]
      exact h.enter hc (by simp [Claim.batch?, hsteps])

theorem step (h : Ledger s) {msToTicks : ℕ → ℕ} {a : Action} {t : State}
    (ht : Trans msToTicks s a t) : Ledger t := by
  have hfresh : ∀ e ∈ s.trace, e.call? ≠ some s.calls := fun e he hcall ↦
    Nat.lt_irrefl _ (h.numbered e he _ hcall)
  cases ht with
  | tick fits => exact h.drift rfl rfl fun u ↦ Pc.onTick_drifts _ _
  | rejected me request e at_ refused =>
      apply (h.opened me request).finish (Nat.lt_succ_self _)
      · intro u ret hmem
        simp only [State.opened, State.emit_trace, List.mem_append, List.mem_singleton,
          reduceCtorEq, or_false] at hmem
        exact hfresh _ hmem rfl
      · intro u hu
        obtain ⟨request', hcalled⟩ := (h.current u _ hu).1
        exact (hfresh _ hcalled rfl).elim
      · intro b hb
        simp [State.opened, at_, Pc.batch?] at hb
  | started me request pc at_ accepted =>
      have hcalled : .called s.calls me request ∈ (s.opened me request).trace :=
        List.mem_append_right _ (List.mem_singleton_self _)
      refine (h.opened me request).start s.calls at_ ?_ hcalled ?_ ?_ ?_ ?_
      · rcases Request.start_ok accepted with ⟨c, t, rfl, hid⟩ | ⟨address, rfl⟩
        · simp [Pc.call?, Pc.claim?, hid]
        · rfl
      · rcases Request.start_ok accepted with ⟨c, t, rfl, hid⟩ | ⟨address, rfl⟩
        · intro c' hc'
          cases hc'
          exact ⟨⟨request, t, hid ▸ hcalled, hid ▸ accepted⟩, hid⟩
        · intro c hc
          simp [Pc.claim?] at hc
      · rcases Request.start_ok accepted with ⟨c, t, rfl, hid⟩ | ⟨address, rfl⟩ <;> rfl
      · intro u ret hmem
        simp only [State.opened, State.emit_trace, List.mem_append, List.mem_singleton,
          reduceCtorEq, or_false] at hmem
        exact hfresh _ hmem rfl
      · intro u b hmem hb
        simp only [State.opened, State.emit_trace, List.mem_append, List.mem_singleton,
          reduceCtorEq, or_false] at hmem
        exact hfresh _ hmem (congrArg some hb)
  | @moved me ok pc pc' r woke at_ move =>
      subst at_
      have hdrift := s.commit_drifts r woke me
      refine (h.commit _ _).move (move.call?.trans hdrift.call?.symm)
        (move.claim?.trans hdrift.claim?.symm) (move.batch?.trans hdrift.batch?.symm) ?_
      intro b hb
      rw [move.batch?] at hb
      exact move.progress hb (h.batches me b hb).2
  | claimed me ok c t i at_ vacant free =>
      apply ((h.commit _ _).emit_claimed _ _ _ _).granted (c := c)
      rw [State.emit_threads, (s.commit_drifts _ _ me).claim?, at_]
      rfl
  | reentered me ok c t e at_ found ours =>
      apply (h.commit _ _).granted (c := c)
      rw [(s.commit_drifts _ _ me).claim?, at_]
      rfl
  | transferred me ok b lease st rest at_ good =>
      have hb : (s.threads me).batch? = some b := by simp [at_, Pc.batch?]
      have hprogress := (h.batches me b hb).2
      rw [at_] at hprogress
      obtain ⟨pre, hsplit, hpassed, hbus, hl⟩ := hprogress
      have h' : Ledger { s with sInitialized := true } := h.drift rfl rfl fun u ↦ .stay _
      apply h'.issue (b := b) hb rfl rfl (by cases ok <;> rfl)
      rw [hl]
      cases ok with
      | true =>
          exact ⟨pre ++ [st], by simpa using hsplit, hpassed.snoc (.inr good),
            (b.wire_bus me pre hbus).symm⟩
      | false => exact .failed pre st rest hsplit hpassed hbus good
  | @returned me ok pc call ret r woke at_ done =>
      subst at_
      have hdrift := s.commit_drifts r woke
      obtain ⟨⟨request, hcalled⟩, hunreturned⟩ := h.current me _ done.call?
      apply (h.commit _ _).finish (h.numbered _ hcalled _ rfl) hunreturned
      · intro u hu
        rw [(hdrift u).call?] at hu
        exact h.thread_of_call hu done.call?
      · intro b hb
        rw [(hdrift me).batch?] at hb
        refine ⟨?_, done.outcome hb (h.batches me b hb).2⟩
        rw [← Option.some_inj, ← Pc.call?_of_batch hb, done.call?]

theorem reachable {msToTicks : ℕ → ℕ}
    (h : Reachable (PlantNode.Driver.step msToTicks) .boot s) : Ledger s :=
  h.invariant boot fun _ _ _ hs _ ht ↦ hs.step (step_trans msToTicks ht)

end Ledger

end PlantNode.Driver
