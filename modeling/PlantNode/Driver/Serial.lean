import PlantNode.Driver.Alone
import PlantNode.Driver.Confinement
import PlantNode.Driver.TableSteps

/-!
# Batches within their deadlines are serial

While no reservation expires under a batch, the batch holds its device from the
section that gave it the reservation to the section that releases it.  So the
transfers on an address are those of its batches one after another, and each
batch runs as it would alone.
-/

namespace PlantNode.Driver

open Foundation

/-- No reservation has reached its deadline while its owner is inside
`i2c_transact` on its address. -/
def WithinDeadlines (s : State) (_ : Action) : Prop :=
  ∀ u b e, (s.threads u).batch? = some b → holder b.cap.address s.reservations = some e →
    e.owner = u → s.clock < e.deadlineTick

def transfersOn (address : UInt8) (trace : List Event) : List Transfer :=
  (onBus trace).filter fun x ↦ x.address == address

/-- The calls that got the reservation of `address`, in the order in which they
obtained or re-entered it. -/
def enteredOn (address : UInt8) (trace : List Event) : List (ThreadId × Batch) :=
  (entriesOf trace).filter fun p ↦ p.2.cap.address == address

/-- What makes batches serial: a batch holds its device, it is the latest one on
it, and it never finds its reservation lost; no call gets the device twice. -/
structure Serial (s : State) : Prop where
  holds : ∀ u b, (s.threads u).batch? = some b →
    ∃ e, holder b.cap.address s.reservations = some e ∧ e.owner = u
  latest : ∀ u b, (s.threads u).batch? = some b → ∃ front,
    enteredOn b.cap.address s.trace = front ++ [(u, b)] ∧ ∀ p ∈ front, p.2.call ≠ b.call
  serial : ∀ address, transfersOn address s.trace =
    (enteredOn address s.trace).flatMap fun p ↦ transfersOf p.2.call s.trace
  distinct : ((entriesOf s.trace).map fun p ↦ p.2.call).Nodup
  kept : ∀ u b lease result, s.threads u = .finishing b lease result → result ≠ .error .ETIMEDOUT
  returned : ∀ me b, (me, b) ∈ entriesOf s.trace →
    .returned b.call me (.error .ETIMEDOUT) ∉ s.trace

section Serial

variable {msToTicks : ℕ → ℕ} {s t : State} {a : Action} {address : UInt8} {e : Reservation}
  {me u : ThreadId} {b : Batch}

theorem mem_entriesOf {trace : List Event} : (me, b) ∈ entriesOf trace ↔ .entered me b ∈ trace := by
  simp only [entriesOf, List.mem_filterMap]
  constructor
  · rintro ⟨e, he, hb⟩
    cases e <;> simp_all [Event.entered?]
  · exact fun hb ↦ ⟨_, hb, rfl⟩

theorem Serial.boot : Serial .boot where
  holds := by simp [State.boot, Pc.batch?]
  latest := by simp [State.boot, Pc.batch?]
  serial := by simp [State.boot, transfersOn, enteredOn, onBus, entriesOf]
  distinct := by simp [State.boot, entriesOf]
  kept := by simp [State.boot]
  returned := by simp [State.boot, entriesOf]

/-! ## The holder of a device across a step -/

theorem holder_expire_fresh {r : Reservations} {now : ℕ} (hu : UniqueActive r)
    (he : holder address r = some e) (hlive : now < e.deadlineTick) :
    holder address (expireLocked now r).1 = some e := by
  rw [holder_expire hu, he]
  simp [hlive]

theorem Move.holder_kept {pc pc' : Pc} {r : Reservations} {woke : Bool}
    (h : Move s me pc pc' r woke) (hu : UniqueActive s.reservations)
    (he : holder address s.reservations = some e) (hlive : s.clock < e.deadlineTick) :
    holder address r = some e := by
  cases h with
  | held => exact holder_expire_fresh hu he hlive
  | verified => exact holder_expire_fresh hu he hlive
  | lost => exact holder_expire_fresh hu he hlive
  | _ => exact he

theorem Return.holder_kept {pc : Pc} {call : ℕ} {ret : Ret} {r : Reservations} {woke : Bool}
    (h : Return s me pc call ret r woke) (hu : UniqueActive s.reservations)
    (he : holder address s.reservations = some e) (hlive : s.clock < e.deadlineTick)
    (hother : e.owner ≠ me) : holder address r = some e := by
  cases h with
  | full => exact holder_expire_fresh hu he hlive
  | timedOut => exact he
  | keptLease => exact he
  | released b result =>
      rw [holder_release hu, he]
      simp [hother]
  | leaseReleased call address' =>
      rw [holder_release hu, he]
      simp [hother]

/-- An unexpired holder stays, unless it returns from its call in this step. -/
theorem Trans.holder_kept_or_returned (h : Trans msToTicks s a t)
    (hu : UniqueActive s.reservations) (he : holder address s.reservations = some e)
    (hlive : s.clock < e.deadlineTick) :
    holder address t.reservations = some e ∨
      ∃ ok pc call ret r woke, a = .run e.owner ok ∧ s.threads e.owner = pc ∧
        Return s e.owner pc call ret r woke ∧ t = (s.commit r woke).finish e.owner call ret := by
  cases h with
  | tick fits => exact .inl he
  | rejected me request err at_ refused => exact .inl he
  | started me request pc at_ accepted => exact .inl he
  | moved me ok at_ move => exact .inl (move.holder_kept hu he hlive)
  | claimed me ok c tm i at_ vacant free =>
      left
      rw [State.granted_reservations]
      have hkept := holder_expire_fresh hu he hlive
      have hne : address ≠ c.cap.address := by
        rintro rfl
        rw [holder, vacant] at hkept
        cases hkept
      exact (holder_claim (hu.expire _) vacant free rfl).trans ((if_neg hne).trans hkept)
  | reentered me ok c tm h at_ found ours =>
      left
      rw [State.granted_reservations]
      exact holder_expire_fresh hu he hlive
  | transferred me ok b lease st rest at_ good => exact .inl he
  | returned me ok at_ done =>
      by_cases hother : e.owner = me
      · subst hother
        exact .inr ⟨ok, _, _, _, _, _, rfl, at_, done, rfl⟩
      · exact .inl (done.holder_kept hu he hlive hother)

theorem Trans.holder_kept (h : Trans msToTicks s a t) (hu : UniqueActive s.reservations)
    (he : holder address s.reservations = some e) (hlive : s.clock < e.deadlineTick) :
    holder address t.reservations = some e ∨ t.threads e.owner = .idle := by
  rcases h.holder_kept_or_returned hu he hlive with
    hkept | ⟨ok, pc, call, ret, r, woke, -, -, -, rfl⟩
  · exact .inl hkept
  · exact .inr (by simp [State.finish])

theorem Trans.holder_entered {ok : Bool} {c : Claim} {tm : Timeout}
    (h : Trans msToTicks s (.run me ok) t) (hu : UniqueActive s.reservations)
    (hpc : s.threads me = .reserving c tm) (hb : (t.threads me).batch? = some b) :
    ∃ e, holder c.cap.address t.reservations = some e ∧ e.owner = me := by
  cases h with
  | moved me ok at_ move =>
      rw [hpc] at at_
      subst at_
      rw [State.setPc_threads, Function.update_self, move.batch?] at hb
      cases hb
  | claimed me ok c' tm' i at_ vacant free =>
      rw [hpc] at at_
      cases at_
      rw [State.granted_reservations]
      exact ⟨_, (holder_claim (hu.expire _) vacant free rfl).trans (if_pos rfl), rfl⟩
  | reentered me ok c' tm' e at_ found ours =>
      rw [hpc] at at_
      cases at_
      rw [State.granted_reservations]
      exact ⟨e, found, ours⟩
  | transferred me ok b lease st rest at_ good =>
      rw [hpc] at at_
      cases at_
  | returned me ok at_ done => simp [State.finish, Pc.batch?] at hb

/-! ## Lost reservations -/

theorem Trans.lost_from {lease : Bool} (h : Trans msToTicks s a t)
    (hpc : t.threads u = .finishing b lease (.error .ETIMEDOUT)) :
    s.threads u = .finishing b lease (.error .ETIMEDOUT) ∨
      (s.threads u).batch? = some b ∧
        ∀ e, holder b.cap.address (expireLocked s.clock s.reservations).1 = some e →
          e.owner ≠ u := by
  rcases h.drift_or_move hpc (by rintro ⟨⟩) with hdrift | ⟨ok, r, woke, -, move, -, -⟩
  · exact .inl (hdrift.eq_of_batch (hdrift.batch?.symm.trans rfl)).symm
  · generalize s.threads u = pc at move
    cases move with
    | lost b lease st rest bus nonnull gone => exact .inr ⟨rfl, gone⟩

/-- How a call can return a timeout: it is an old return, a call that is just
being opened, a claim that timed out, or a batch that lost its reservation. -/
theorem Trans.timeout_from {id : ℕ} (h : Trans msToTicks s a t)
    (hr : .returned id u (.error .ETIMEDOUT) ∈ t.trace) :
    .returned id u (.error .ETIMEDOUT) ∈ s.trace ∨ id = s.calls ∨
      (∃ c, s.threads u = .timedOut c ∧ c.call = id) ∨
        ∃ b lease, s.threads u = .finishing b lease (.error .ETIMEDOUT) := by
  have hgranted : ∀ (m : State) me c, .returned id u (.error .ETIMEDOUT) ∈ (m.granted me c).trace →
      .returned id u (.error .ETIMEDOUT) ∈ m.trace := by
    intro m me c hmem
    unfold State.granted at hmem
    split at hmem <;> simpa [State.finish] using hmem
  cases h with
  | tick fits => exact .inl hr
  | rejected me request e at_ refused =>
      simp only [State.finish, State.opened, State.setPc_trace, State.emit_trace,
        List.append_assoc, List.mem_append, List.mem_cons, List.not_mem_nil, or_false,
        reduceCtorEq, false_or, Event.returned.injEq] at hr
      exact hr.imp_right fun h ↦ .inl h.1
  | started me request pc at_ accepted => exact .inl (by simpa [State.opened] using hr)
  | moved me ok at_ move => exact .inl hr
  | claimed me ok c tm i at_ vacant free => exact .inl (by simpa using hgranted _ me c hr)
  | reentered me ok c tm h at_ found ours => exact .inl (hgranted (s.commit _ _) me c hr)
  | transferred me ok b lease st rest at_ good => exact .inl (by simpa using hr)
  | returned me ok at_ done =>
      simp only [State.finish, State.setPc_trace, State.emit_trace, State.commit_trace,
        List.mem_append, List.mem_cons, List.not_mem_nil, or_false, Event.returned.injEq] at hr
      rcases hr with hr | ⟨rfl, rfl, hret⟩
      · exact .inl hr
      subst hret
      right; right
      cases done with
      | timedOut c => exact .inl ⟨c, at_, rfl⟩
      | keptLease b result => exact .inr ⟨b, true, at_⟩
      | released b result => exact .inr ⟨b, false, at_⟩

/-! ## One step -/

theorem enteredOn_append {l l' : List Event} (h : entriesOf l' = entriesOf l ++ [(me, b)])
    (address : UInt8) : enteredOn address l' =
      enteredOn address l ++ if b.cap.address = address then [(me, b)] else [] := by
  unfold enteredOn
  rw [h, List.filter_append]
  by_cases haddress : b.cap.address = address <;> simp [haddress]

theorem Claim.address_of_batch? {c : Claim} (h : c.batch? = some b) :
    c.cap.address = b.cap.address := by
  obtain ⟨steps, -, rfl⟩ := Option.map_eq_some_iff.mp h
  rfl

theorem Serial.holds_step (h : Serial s) (hu : UniqueActive s.reservations)
    (hguard : WithinDeadlines s a) (ht : Trans msToTicks s a t)
    (hb : (t.threads u).batch? = some b) :
    ∃ e, holder b.cap.address t.reservations = some e ∧ e.owner = u := by
  have hkept : (s.threads u).batch? = some b →
      ∃ e, holder b.cap.address t.reservations = some e ∧ e.owner = u := by
    intro hbefore
    obtain ⟨e, he, howner⟩ := h.holds u b hbefore
    rcases ht.holder_kept hu he (hguard u b e hbefore he howner) with hstays | hidle
    · exact ⟨e, hstays, howner⟩
    · rw [← howner, hidle] at hb
      cases hb
  rcases ht.entries with ⟨-, hall⟩ | ⟨me, ok, c, tm, b', rfl, hpc, hcb, -, -, hme, hothers⟩
  · exact hkept (hall u b hb)
  · by_cases hum : u = me
    · subst hum
      cases hb.symm.trans hme
      exact Claim.address_of_batch? hcb ▸ ht.holder_entered hu hpc hme
    · exact hkept (hothers u hum b hb)

theorem Ledger.not_entered (h : Ledger s) {c : Claim} {p : ThreadId × Batch}
    (hc : (s.threads me).claim? = some c) (hcb : c.batch? = some b)
    (hp : p ∈ entriesOf s.trace) : p.2.call ≠ b.call := by
  rw [Claim.call_of_batch? hcb]
  exact (h.claims me c hc).2 p.1 p.2 (mem_entriesOf.mp hp)

theorem Serial.distinct_step (h : Serial s) (hledger : Ledger s) (ht : Trans msToTicks s a t) :
    ((entriesOf t.trace).map fun p ↦ p.2.call).Nodup := by
  rcases ht.entries with ⟨hentries, -⟩ | ⟨me, ok, c, tm, b, -, hpc, hcb, hentries, -, -, -⟩
  · exact hentries ▸ h.distinct
  · rw [hentries, List.map_append, List.nodup_append]
    refine ⟨h.distinct, List.nodup_singleton _, ?_⟩
    intro id hid id' hid'
    obtain ⟨p, hp, rfl⟩ := List.mem_map.mp hid
    rw [List.map_singleton, List.mem_singleton] at hid'
    exact hid' ▸ hledger.not_entered (by rw [hpc]; rfl) hcb hp

theorem Serial.latest_step (h : Serial s) (hledger : Ledger s)
    (hholds : ∀ u b, (t.threads u).batch? = some b →
      ∃ e, holder b.cap.address t.reservations = some e ∧ e.owner = u)
    (ht : Trans msToTicks s a t) (hb : (t.threads u).batch? = some b) :
    ∃ front, enteredOn b.cap.address t.trace = front ++ [(u, b)] ∧
      ∀ p ∈ front, p.2.call ≠ b.call := by
  rcases ht.entries with ⟨hentries, hall⟩ |
    ⟨me, ok, c, tm, b', rfl, hpc, hcb, hentries, -, hme, hothers⟩
  · rw [enteredOn, hentries]
    exact h.latest u b (hall u b hb)
  · rw [enteredOn_append hentries]
    by_cases hum : u = me
    · subst hum
      cases hb.symm.trans hme
      refine ⟨_, by rw [if_pos rfl], fun p hp ↦ ?_⟩
      exact hledger.not_entered (by rw [hpc]; rfl) hcb (List.mem_of_mem_filter hp)
    · have hne : b'.cap.address ≠ b.cap.address := by
        -- the thread that has just entered holds the address alone
        intro hsame
        obtain ⟨e, he, howner⟩ := hholds u b hb
        obtain ⟨e', he', howner'⟩ := hholds me b' hme
        rw [hsame, he] at he'
        cases he'
        exact hum (howner.symm.trans howner')
      rw [if_neg hne, List.append_nil]
      exact h.latest u b (hothers u hum b hb)

theorem Serial.serial_step (h : Serial s) (hledger : Ledger s) (ht : Trans msToTicks s a t)
    (address : UInt8) : transfersOn address t.trace =
      (enteredOn address t.trace).flatMap fun p ↦ transfersOf p.2.call t.trace := by
  rcases ht.bus with hbus | ⟨me, ok, b, lease, st, rest, rfl, hpc, -, htrace⟩
  · have hof : ∀ call, transfersOf call t.trace = transfersOf call s.trace := by
      intro call
      rw [transfersOf, hbus]
      rfl
    have hon : transfersOn address t.trace = transfersOn address s.trace := by
      rw [transfersOn, hbus]
      rfl
    simp only [hof, hon]
    rcases ht.entries with ⟨hentries, -⟩ | ⟨me, ok, c, tm, b, -, hpc, hcb, hentries, -, -, -⟩
    · rw [enteredOn, hentries]
      exact h.serial address
    · have hnew : transfersOf b.call s.trace = [] := by
        rw [Claim.call_of_batch? hcb]
        exact hledger.not_entered_of_claim (by rw [hpc]; rfl)
      rw [enteredOn_append hentries, List.flatMap_append, h.serial address]
      split <;> simp [hnew]
  · have hb : (s.threads me).batch? = some b := by rw [hpc]; rfl
    have hentries : entriesOf t.trace = entriesOf s.trace := by
      simp [htrace, entriesOf, Event.entered?]
    have hentered : enteredOn address t.trace = enteredOn address s.trace := by
      rw [enteredOn, hentries]
      rfl
    have hother : ∀ call, call ≠ b.call →
        transfersOf call t.trace = transfersOf call s.trace := by
      intro call hcall
      rw [htrace]
      exact transfersOf_other (fun hsame ↦ hcall hsame.symm) _
    rw [hentered]
    by_cases haddress : b.cap.address = address
    · obtain ⟨front, hfront, hcalls⟩ := h.latest me b hb
      have hbefore := h.serial address
      have hown : transfersOf b.call t.trace =
          transfersOf b.call s.trace ++ [b.transferOf me st ok] := by
        rw [htrace]
        exact transfersOf_self (x := b.transferOf me st ok) _
      have hold : (front.flatMap fun p ↦ transfersOf p.2.call t.trace) =
          front.flatMap fun p ↦ transfersOf p.2.call s.trace :=
        List.flatMap_congr fun p hp ↦ hother _ (hcalls p hp)
      have hon : transfersOn address t.trace =
          transfersOn address s.trace ++ [b.transferOf me st ok] := by
        simp [htrace, transfersOn, onBus, Event.transfer?, Batch.transferOf, haddress]
      rw [← haddress, hfront] at hbefore ⊢
      rw [haddress, hon, ← haddress, hbefore, List.flatMap_append, List.flatMap_append, hold]
      simp [hown]
    · have hon : transfersOn address t.trace = transfersOn address s.trace := by
        simp [htrace, transfersOn, onBus, Event.transfer?, Batch.transferOf, haddress]
      rw [hon, h.serial address]
      refine (List.flatMap_congr fun p hp ↦ hother _ fun hcall ↦ haddress ?_).symm
      obtain ⟨hentry, hp'⟩ := List.mem_filter.mp hp
      obtain ⟨-, hsame⟩ := hledger.entered_same (mem_entriesOf.mp hentry)
        (hledger.batches me b hb).1 hcall
      exact hsame ▸ beq_iff_eq.mp hp'

theorem Serial.kept_step (h : Serial s) (hu : UniqueActive s.reservations)
    (hguard : WithinDeadlines s a) (ht : Trans msToTicks s a t) {lease : Bool} :
    t.threads u ≠ .finishing b lease (.error .ETIMEDOUT) := by
  intro hpc
  rcases ht.lost_from hpc with hbefore | ⟨hb, hgone⟩
  · exact h.kept u b lease _ hbefore rfl
  · obtain ⟨e, he, howner⟩ := h.holds u b hb
    exact hgone e (holder_expire_fresh hu he (hguard u b e hb he howner)) howner

theorem Serial.returned_step (h : Serial s) (hledger : Ledger s) (ht : Trans msToTicks s a t)
    (hentered : (me, b) ∈ entriesOf t.trace) :
    .returned b.call me (.error .ETIMEDOUT) ∉ t.trace := by
  intro hreturned
  have hfrom := ht.timeout_from hreturned
  have hold : (me, b) ∈ entriesOf s.trace → False := by
    intro hmem
    have hevent := mem_entriesOf.mp hmem
    rcases hfrom with hbefore | hnew | ⟨c, hpc, hcall⟩ | ⟨b', lease, hpc⟩
    · exact h.returned me b hmem hbefore
    · exact absurd (hledger.numbered _ hevent _ rfl) (hnew ▸ Nat.lt_irrefl _)
    · exact (hledger.claims me c (by rw [hpc]; rfl)).2 me b hevent hcall.symm
    · exact h.kept me b' lease _ hpc rfl
  rcases ht.entries with ⟨hentries, -⟩ | ⟨me', ok, c, tm, b', -, hpc, hcb, hentries, -, -, -⟩
  · exact hold (hentries ▸ hentered)
  · rw [hentries] at hentered
    rcases List.mem_append.mp hentered with hmem | hmem
    · exact hold hmem
    · cases List.mem_singleton.mp hmem
      have hclaim : (s.threads me).claim? = some c := by rw [hpc]; rfl
      obtain ⟨⟨request, hcalled⟩, hopen⟩ := hledger.current me _ (Pc.call?_of_claim hclaim)
      rw [Claim.call_of_batch? hcb] at hfrom
      rcases hfrom with hbefore | hnew | ⟨c', hpc', -⟩ | ⟨b', lease, hpc'⟩
      · exact hopen _ _ hbefore
      · exact absurd (hledger.numbered _ hcalled _ rfl) (hnew ▸ Nat.lt_irrefl _)
      · rw [hpc] at hpc'
        cases hpc'
      · rw [hpc] at hpc'
        cases hpc'

theorem serial (h : Steps (step msToTicks) WithinDeadlines .boot s) : Serial s := by
  refine h.invariant_over (K := fun s ↦ Ledger s ∧ UniqueActive s.reservations)
    (fun s hs ↦ ⟨Ledger.reachable hs.reachable, reachable_unique hs.reachable⟩) .boot ?_
  intro s a t ⟨hledger, hu⟩ ih hguard hstep
  have ht := step_trans msToTicks hstep
  have hholds := fun u b ↦ ih.holds_step hu hguard ht (u := u) (b := b)
  refine ⟨hholds, fun u b ↦ ih.latest_step hledger hholds ht, ih.serial_step hledger ht,
    ih.distinct_step hledger ht, ?_, fun me b ↦ ih.returned_step hledger ht⟩
  rintro u b lease result hpc rfl
  exact ih.kept_step hu hguard ht hpc

/-! ## Serializability -/

/-- The number of a call that entered a batch is that of one call, which asked for the
batch. -/
theorem Ledger.called_iff (h : Ledger s) (hentered : .entered me b ∈ s.trace) :
    ∃ t, ∀ u request, .called b.call u request ∈ s.trace ↔
      u = me ∧ request = .transact (some b.cap) (some b.steps) t := by
  obtain ⟨dev, steps, t, hcalled, haccept⟩ := h.requested hentered
  obtain ⟨rfl, rfl, -⟩ := acceptBatch_ok haccept
  refine ⟨t, fun u request ↦ ⟨fun hother ↦ h.once _ _ _ _ _ hother hcalled, ?_⟩⟩
  rintro ⟨rfl, rfl⟩
  exact hcalled

theorem Progress.prefix_alone {pc : Pc} {l : List Transfer} (h : Progress me l pc)
    (hb : pc.batch? = some b) : l <+: (b.alone me b.steps (answersOf l)).1 := by
  cases pc with
  | reserved b' =>
      rw [show l = [] from h]
      exact List.nil_prefix
  | running b' lease rest =>
      cases hb
      obtain ⟨pre, hsplit, hpassed, rfl⟩ := h
      exact b.wire_prefix_alone me hsplit hpassed
  | transferring b' lease st rest =>
      cases hb
      obtain ⟨pre, hsplit, hpassed, -, rfl⟩ := h
      exact b.wire_prefix_alone me hsplit hpassed
  | finishing b' lease result =>
      cases hb
      have houtcome : Outcome me b result l := h
      by_cases hlost : result = .error .ETIMEDOUT
      · subst hlost
        cases houtcome with
        | lost pre st post split passed bus => exact b.wire_prefix_alone me split passed
      · have hwhole := congrArg Prod.fst (houtcome.alone hlost)
        exact ⟨[], (List.append_nil _).trans hwhole.symm⟩
  | _ => cases hb

/-- In every run in which no reservation reaches its deadline while its owner is
inside `i2c_transact`, the transfers on each address are those of the calls that
got its reservation, one after another in that order; each of them is an `i2c_transact` of
its thread, with its own capability and steps.  A call that returned ran
as it would alone and contributes what it should, a call that did not is the
latest one and has sent a first part of that, and the other calls contribute
nothing. -/
theorem batches_serializable (h : Steps (step msToTicks) WithinDeadlines .boot s) :
    (∀ address, transfersOn address s.trace =
      (enteredOn address s.trace).flatMap fun p ↦ transfersOf p.2.call s.trace) ∧
    ((entriesOf s.trace).map fun p ↦ p.2.call).Nodup ∧
    (∀ me b, (me, b) ∈ entriesOf s.trace →
      (∃ t, ∀ u request, .called b.call u request ∈ s.trace ↔
        u = me ∧ request = .transact (some b.cap) (some b.steps) t) ∧
      (∀ ret, .returned b.call me ret ∈ s.trace →
        b.alone me b.steps (answersOf (transfersOf b.call s.trace)) =
            (transfersOf b.call s.trace, ret) ∧
          Contributes me b ret (transfersOf b.call s.trace)) ∧
      ((∀ ret, .returned b.call me ret ∉ s.trace) →
        (enteredOn b.cap.address s.trace).getLast? = some (me, b) ∧
          transfersOf b.call s.trace <+:
            (b.alone me b.steps (answersOf (transfersOf b.call s.trace))).1)) ∧
    ∀ id, (∀ p ∈ entriesOf s.trace, p.2.call ≠ id) → transfersOf id s.trace = [] := by
  have hserial := serial h
  have hledger := Ledger.reachable h.reachable
  refine ⟨hserial.serial, hserial.distinct, fun me b hentry ↦
    ⟨hledger.called_iff (mem_entriesOf.mp hentry), fun ret hret ↦ ?_, fun hopen ↦ ?_⟩,
    fun id hother ↦ ?_⟩
  · have hkept : ret ≠ .error .ETIMEDOUT := by
      rintro rfl
      exact hserial.returned me b hentry hret
    have houtcome := hledger.outcome_of_returned (mem_entriesOf.mp hentry) hret
    exact ⟨houtcome.alone hkept, houtcome.contributes hkept⟩
  · have hbatch : (s.threads me).batch? = some b := by
      rcases (hledger.entered me b (mem_entriesOf.mp hentry)).2 with hbatch | ⟨ret, hret, -⟩
      · exact hbatch
      · exact (hopen ret hret).elim
    obtain ⟨front, hfront, -⟩ := hserial.latest me b hbatch
    refine ⟨by rw [hfront]; simp, ?_⟩
    exact (hledger.batches me b hbatch).2.prefix_alone hbatch
  · refine List.eq_nil_iff_forall_not_mem.mpr fun x hx ↦ ?_
    obtain ⟨hmem, hcall⟩ := mem_transfersOf.mp hx
    obtain ⟨b, hentered, hb⟩ := hledger.issued x hmem
    exact hother (x.thread, b) (mem_entriesOf.mpr hentered) (hb.trans hcall)

end Serial

/-- A test that implies the guard: no reservation has reached its deadline. -/
def allFresh (s : State) (_ : Action) : Bool :=
  decide (∀ i : Slot, (s.reservations.sReservations i).active = true →
    s.clock < (s.reservations.sReservations i).deadlineTick)

theorem withinDeadlines_of_allFresh {s : State} {a : Action} (h : allFresh s a = true) :
    WithinDeadlines s a := by
  intro u b e _ he _
  obtain ⟨i, hi, rfl⟩ := Option.map_eq_some_iff.mp he
  exact of_decide_eq_true h i (findLocked_some hi).1

/-- Thread 2 asks for the device during the batch of thread 1, whose second
transfer fails, and gets it when that batch releases it. -/
theorem batches_serializable_two : ∃ s : State,
    transfersOn 0x38 s.trace =
      (enteredOn 0x38 s.trace).flatMap (fun p ↦ transfersOf p.2.call s.trace) ∧
    onBus s.trace = [⟨0, 1, 0x38, .write, 3, true⟩, ⟨0, 1, 0x38, .read, 6, false⟩,
      ⟨1, 2, 0x38, .write, 1, true⟩] := by
  let cap : I2CDeviceCap := ⟨0x38, 3, 0, 8, 150, 0⟩
  have hrun : (exec (step (· / 10)) allFresh .boot
      [.call 1 (.transact (some cap)
          (some [⟨0, 3, 0, some 1⟩, ⟨2, 0, 80, none⟩, ⟨1, 6, 0, some 2⟩, ⟨1, 1, 0, some 3⟩])
          .unlimited),
        .run 1 true, .run 1 true, .run 1 true, .run 1 true,
        .call 2 (.transact (some cap) (some [⟨0, 1, 0, some 4⟩]) .unlimited),
        .run 2 true, .run 2 true, .tick,
        .run 1 true, .run 1 true, .run 1 false, .run 1 true,
        .run 2 true, .run 2 true, .run 2 true, .run 2 true, .run 2 true, .run 2 true]).map
          (fun s ↦ onBus s.trace) =
      some [⟨0, 1, 0x38, .write, 3, true⟩, ⟨0, 1, 0x38, .read, 6, false⟩,
        ⟨1, 2, 0x38, .write, 1, true⟩] := by
    decide
  obtain ⟨s, hexec, hbus⟩ := Option.map_eq_some_iff.mp hrun
  have hsteps := (exec_steps hexec).mono fun s a h ↦ withinDeadlines_of_allFresh h
  exact ⟨s, (batches_serializable hsteps).1 0x38, hbus⟩

end PlantNode.Driver
