import PlantNode.Driver.Origins
import PlantNode.Driver.TableSteps

/-!
# Batches on one device

The loop of `i2c_transact` checks its reservation in one critical section and
transfers in another.  Batches on one address stay apart as long as nobody
claims the address in between; a claim there lets the batch transfer once more,
into the batch of the new holder.
-/

namespace PlantNode.Driver

open Foundation

/-- Between two transfers of one call nobody else transfers to its address. -/
def Apart (l : List Transfer) : Prop :=
  ∀ x y z, [x, y, z].Sublist l → x.call = z.call → y.address = x.address → y.thread = x.thread

/-- The step is no fresh claim of an address to which another thread is about to
transfer, its reservation already verified. -/
def Undisturbed (s : State) : Action → Prop
  | .run me _ => ∀ c tm, s.threads me = .reserving c tm →
      holder c.cap.address (expireLocked s.clock s.reservations).1 = none →
        ∀ u b lease st rest, s.threads u = .transferring b lease st rest →
          st.malformed = false → b.cap.address ≠ c.cap.address
  | _ => True

/-- What keeps batches apart: a thread about to transfer is still the last
claimant, and a batch into which another thread has transferred is not. -/
structure Separated (s : State) : Prop where
  checked : ∀ u b lease st rest, s.threads u = .transferring b lease st rest →
    st.malformed = false → claimant b.cap.address s.trace = some u
  overtaken : ∀ u b, (s.threads u).batch? = some b → ∀ x y, [x, y].Sublist (onBus s.trace) →
    x.call = b.call → y.address = b.cap.address → y.thread ≠ u →
      claimant b.cap.address s.trace ≠ some u
  apart : Apart (onBus s.trace)

section Interleaving

variable {msToTicks : ℕ → ℕ} {s t : State} {a : Action}

theorem Separated.boot : Separated .boot where
  checked := by simp [State.boot]
  overtaken := by simp [State.boot, Pc.batch?]
  apart := by simp [State.boot, Apart, onBus]

theorem Separated.checked_step (h : Separated s) (hguard : Undisturbed s a)
    (ht : Trans msToTicks s a t) (hreach : Reachable (step msToTicks) .boot t)
    {u : ThreadId} {b : Batch} {lease : Bool} {st : I2CStep} {rest : List I2CStep}
    (hpc : t.threads u = .transferring b lease st rest) (hgood : st.malformed = false) :
    claimant b.cap.address t.trace = some u := by
  rcases ht.transferring_from hpc with hbefore | ⟨e, he, howner⟩
  · rcases ht.claimant b.cap.address with hsame | ⟨me, ok, c, tm, rfl, hme, haddress, hfree, -⟩
    · exact hsame.trans (h.checked u b lease st rest hbefore hgood)
    · have hapart := hguard c tm hme (haddress ▸ hfree) u b lease st rest hbefore hgood
      exact (hapart haddress.symm).elim
  · rw [claimant_of_holder hreach he, howner]

theorem Trans.claimant_ne (ht : Trans msToTicks s a t) {u : ThreadId} {b : Batch}
    (hb : (s.threads u).batch? = some b) {address : UInt8}
    (h : PlantNode.Driver.claimant address s.trace ≠ some u) :
    PlantNode.Driver.claimant address t.trace ≠ some u := by
  rcases ht.claimant address with hsame | ⟨me, ok, c, tm, -, hme, -, -, hclaimant⟩
  · rwa [hsame]
  · rw [hclaimant]
    rintro ⟨⟩
    simp [hme, Pc.batch?] at hb

theorem Ledger.no_transfer (h : Ledger s) {u : ThreadId} {c : Claim} {b : Batch} {x : Transfer}
    (hc : (s.threads u).claim? = some c) (hb : c.batch? = some b) (hx : x ∈ onBus s.trace) :
    x.call ≠ b.call := by
  intro hcall
  have hmem := mem_transfersOf.mpr ⟨mem_onBus.mp hx, hcall.trans (Claim.call_of_batch? hb)⟩
  rw [h.not_entered_of_claim hc] at hmem
  cases hmem

theorem Separated.silent (h : Separated s) (hledger : Ledger s) (hguard : Undisturbed s a)
    (ht : Trans msToTicks s a t) (hreach : Reachable (step msToTicks) .boot t)
    (hbus : onBus t.trace = onBus s.trace) : Separated t where
  checked _ _ _ _ _ hpc hgood := h.checked_step hguard ht hreach hpc hgood
  overtaken := by
    intro u b hb x y hxy hcall haddress hthread
    rw [hbus] at hxy
    rcases ht.batch_from hb with hbefore | ⟨c, hc, hcb⟩
    · exact ht.claimant_ne hbefore (h.overtaken u b hbefore x y hxy hcall haddress hthread)
    · exact (hledger.no_transfer hc hcb (hxy.subset (by simp)) hcall).elim
  apart := by
    rw [hbus]
    exact h.apart

theorem Separated.transfer (h : Separated s) (hledger : Ledger s) (hguard : Undisturbed s a)
    (ht : Trans msToTicks s a t) (hreach : Reachable (step msToTicks) .boot t)
    {me : ThreadId} {ok : Bool} {b : Batch} {lease : Bool} {st : I2CStep} {rest : List I2CStep}
    (hpc : s.threads me = .transferring b lease st rest) (hgood : st.malformed = false)
    (htrace : t.trace = s.trace ++ [.transfer (b.transferOf me st ok)]) : Separated t := by
  have hmine := h.checked me b lease st rest hpc hgood
  have hbatch : (s.threads me).batch? = some b := by rw [hpc]; rfl
  have hclaims : claimsOf t.trace = claimsOf s.trace := by
    simp [htrace, claimsOf, Event.claim?]
  have hclaimant := claimant_congr hclaims
  have hbus : onBus t.trace = onBus s.trace ++ [b.transferOf me st ok] := by
    simp [htrace, onBus, Event.transfer?]
  refine ⟨fun _ _ _ _ _ hpc hgood ↦ h.checked_step hguard ht hreach hpc hgood, ?_, ?_⟩
  · intro u b' hb' x y hxy hcall haddress hthread
    rw [hbus, pair_sublist_snoc] at hxy
    have hbefore : (s.threads u).batch? = some b' := by
      rcases ht.batch_from hb' with hbefore | ⟨c, hc, hcb⟩
      · exact hbefore
      · have hx : x ∈ onBus s.trace := by
          rcases hxy with hxy | ⟨-, hx⟩
          · exact hxy.subset (by simp)
          · exact hx
        exact (hledger.no_transfer hc hcb hx hcall).elim
    rw [hclaimant]
    rcases hxy with hxy | ⟨rfl, -⟩
    · exact h.overtaken u b' hbefore x y hxy hcall haddress hthread
    · rw [← haddress, show (b.transferOf me st ok).address = b.cap.address from rfl, hmine]
      exact fun hsame ↦ hthread (Option.some.inj hsame)
  · intro x y z hxyz hcall haddress
    rw [hbus, triple_sublist_snoc] at hxyz
    rcases hxyz with hxyz | ⟨rfl, hxy⟩
    · exact h.apart x y z hxyz hcall haddress
    · obtain ⟨hthread, hx⟩ :=
        hledger.own_transfer (mem_onBus.mp (hxy.subset (by simp))) hbatch hcall
      rw [hthread]
      by_contra hother
      exact h.overtaken me b hbatch x y hxy hcall (haddress.trans hx) hother hmine

theorem separated (h : Steps (step msToTicks) Undisturbed .boot s) : Separated s := by
  induction h with
  | init => exact .boot
  | next a prior hguard hstep ih =>
      have ht := step_trans msToTicks hstep
      have hledger := Ledger.reachable prior.reachable
      have hreach := prior.reachable.next a trivial hstep
      rcases ht.bus with hbus | ⟨me, ok, b, lease, st, rest, -, hpc, hgood, htrace⟩
      · exact ih.silent hledger hguard ht hreach hbus
      · exact ih.transfer hledger hguard ht hreach hpc hgood htrace

/-- In every run in which nobody claims an address between another thread's
check of its reservation and the transfer that follows, the batches on each
address stay apart. -/
theorem batches_apart (h : Steps (step msToTicks) Undisturbed .boot s) :
    Apart (onBus s.trace) :=
  (separated h).apart

end Interleaving

/-- A test that implies the guard: whoever asks for a device finds it reserved. -/
def queued (s : State) : Action → Bool
  | .run me _ =>
      match s.threads me with
      | .reserving c _ =>
          (holder c.cap.address (expireLocked s.clock s.reservations).1).isSome
      | _ => true
  | _ => true

theorem undisturbed_of_queued {s : State} {a : Action} (h : queued s a = true) :
    Undisturbed s a := by
  cases a with
  | run me ok =>
      intro c tm hpc hfree
      simp [queued, hpc, hfree] at h
  | tick => trivial
  | call me request => trivial

/-- Two writes of thread 1; thread 2 asks for the device in between and waits. -/
theorem batches_apart_waiting : ∃ s : State, Apart (onBus s.trace) ∧
    onBus s.trace = [⟨0, 1, 0x38, .write, 3, true⟩, ⟨0, 1, 0x38, .write, 1, true⟩] := by
  let cap : I2CDeviceCap := ⟨0x38, 3, 0, 8, 150, 0⟩
  let request : Request := .transact (some cap) (some [⟨0, 3, 0, some 1⟩, ⟨0, 1, 0, some 2⟩])
    .unlimited
  have hstart : request.start 0 = .ok (.reserving
      ⟨0, cap, 150, some [⟨0, 3, 0, some 1⟩, ⟨0, 1, 0, some 2⟩]⟩ .unlimited) := by
    decide
  have hfirst : Undisturbed (startCall .boot 1 request) (.run 1 true) := by
    intro c tm hpc _ u b lease st rest hu
    by_cases hu1 : u = 1
    · rw [hu1, hpc] at hu
      cases hu
    · rw [startCall, show State.boot.calls = 0 from rfl, hstart] at hu
      rw [State.setPc_threads, Function.update_of_ne hu1] at hu
      cases hu
  have hrun : ((step (· / 10) (startCall .boot 1 request) (.run 1 true)).bind fun s ↦
      exec (step (· / 10)) queued s
        [.run 1 true, .run 1 true, .run 1 true, .call 2 request, .run 2 true, .run 2 true,
          .tick, .run 1 true, .run 1 true]).map (fun s ↦ onBus s.trace) =
      some [⟨0, 1, 0x38, .write, 3, true⟩, ⟨0, 1, 0x38, .write, 1, true⟩] := by
    decide
  obtain ⟨s, hexec, hbus⟩ := Option.map_eq_some_iff.mp hrun
  obtain ⟨m, hclaim, hrest⟩ := Option.bind_eq_some_iff.mp hexec
  have hsteps : Steps (step (· / 10)) Undisturbed .boot s :=
    ((Steps.next (.call 1 request) .init trivial rfl).next _ hfirst hclaim).trans
      ((exec_steps hrest).mono fun s a h ↦ undisturbed_of_queued h)
  exact ⟨s, batches_apart hsteps, hbus⟩

/-- Thread 1 verifies its reservation, the tick after it expires, and thread 2
claims the device and transfers; then thread 1 transfers. -/
theorem batches_interleave_after_check :
    ¬∀ (msToTicks : ℕ → ℕ) (s : State), Reachable (step msToTicks) .boot s →
      Apart (onBus s.trace) := by
  intro hall
  let cap : I2CDeviceCap := ⟨0x38, 3, 0, 8, 10, 0⟩
  have hrun : (exec (step (· / 10)) (fun _ _ ↦ true) .boot
      [.call 1 (.transact (some cap) (some [⟨0, 3, 0, some 1⟩, ⟨0, 1, 0, some 2⟩]) .unlimited),
        .run 1 true, .run 1 true, .run 1 true, .run 1 true, .run 1 true, .tick,
        .call 2 (.transact (some cap) (some [⟨0, 2, 0, some 3⟩]) .unlimited),
        .run 2 true, .run 2 true, .run 2 true, .run 2 true, .run 1 true]).map
          (fun s ↦ onBus s.trace) =
      some [⟨0, 1, 0x38, .write, 3, true⟩, ⟨1, 2, 0x38, .write, 2, true⟩,
        ⟨0, 1, 0x38, .write, 1, true⟩] := by
    decide
  obtain ⟨s, hexec, hbus⟩ := Option.map_eq_some_iff.mp hrun
  have hapart := hall (· / 10) s (exec_steps hexec).reachable
  rw [hbus] at hapart
  exact absurd (hapart _ _ _ (List.Sublist.refl _) rfl rfl) (by decide)

end PlantNode.Driver
