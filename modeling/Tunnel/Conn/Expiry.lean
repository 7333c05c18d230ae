import Tunnel.Conn.Handshake

/-!
# Conn — Expiry

Which flows an expiry takes, whatever the heap has gone through: a TCP flow that closes leaves its
entry behind, and one that opens on the same tuple files another; a UDP flow files its next entry
only when its last one is popped.

* `UdpFiled`: a UDP flow has one entry in the heap, at its deadline, and a flow that is gone has
  none.  The deadline is never later than the end of the flow's idle time.
* `expireLoop_udp`: an expiry takes a UDP flow only at the end of its idle time.
* `expire_exact`: the law.
-/

namespace Tunnel.Conn
open Support

variable {T U : Type}

/-! ### Entries -/

/-- The entries of one flow. -/
def entriesOf (heap : List Deadline) (id : FlowId) : List Deadline := heap.filter (·.2 = id)

theorem entriesOf_push (heap : List Deadline) (e : Deadline) (id : FlowId) :
    (entriesOf (pushDeadline heap e) id).Perm
      (if e.2 = id then e :: entriesOf heap id else entriesOf heap id) := by
  have h := (List.perm_orderedInsert Deadline.le e heap).filter (·.2 = id)
  rw [List.filter_cons] at h
  simpa [entriesOf, pushDeadline] using h

/-- Where there is one entry at most, its place does not matter. -/
theorem eq_toList_of_perm {α : Type} {xs : List α} {o : Option α} (h : xs.Perm o.toList) :
    xs = o.toList := by
  cases o with
  | none => exact h.eq_nil
  | some x => exact List.perm_singleton.mp h

/-- The entry that a live UDP flow has. -/
def UdpConn.entry (key : FourTuple) (conn : UdpConn) : Deadline := (conn.deadline, .udp key)

/-- Each live UDP flow has one entry, at its deadline, and no other UDP flow has any; the deadline
is not past the flow's idle time. -/
structure UdpFiled (m : ConnManager) (clock : Instant) : Prop where
  entry : ∀ key, entriesOf m.deadlines (.udp key) =
    ((m.udp.lookup key).map (UdpConn.entry key)).toList
  last : ∀ key conn, m.udp.lookup key = some conn → conn.last ≤ clock
  deadline : ∀ key conn, m.udp.lookup key = some conn → conn.deadline ≤ conn.last + UDP_IDLE

/-! ### A pass -/

section Pass
variable [UdpApi U]

/-- A flow's times after a pass at `now`. -/
structure UdpConn.Passed (now : Instant) (conn conn' : UdpConn) : Prop where
  last : conn'.last = conn.last ∨ conn'.last = now
  deadline : conn'.deadline = conn.deadline

theorem UdpConn.Passed.trans {now : Instant} {conn conn₁ conn' : UdpConn}
    (h : conn.Passed now conn₁) (h' : conn₁.Passed now conn') : conn.Passed now conn' := by
  refine ⟨?_, h'.deadline.trans h.deadline⟩
  rcases h'.last with hl | hl
  · rw [hl]
    exact h.last
  · exact .inr hl

theorem relayDatagrams_passed (now : Instant) (n : ℕ) (conn : UdpConn) (sock : U) :
    conn.Passed now (relayDatagrams now n conn sock).1 := by
  induction n generalizing conn sock with
  | zero => exact ⟨.inl rfl, rfl⟩
  | succ n ih =>
      unfold relayDatagrams
      split
      · split
        · refine UdpConn.Passed.trans ?_ (ih _ _)
          exact ⟨.inr rfl, rfl⟩
        · exact ⟨.inl rfl, rfl⟩
      · exact ⟨.inl rfl, rfl⟩

theorem replyDatagrams_passed (now : Instant) (src : SockAddr) (data : List Bytes) (conn : UdpConn)
    (sock : U) (queued : Bool) :
    conn.Passed now (replyDatagrams now src data conn sock queued).1 := by
  induction data generalizing conn sock queued with
  | nil => exact ⟨.inl rfl, rfl⟩
  | cons d rest ih =>
      unfold replyDatagrams
      split
      · dsimp only
        split
        · refine UdpConn.Passed.trans ?_ (ih _ _ _)
          exact ⟨.inr rfl, rfl⟩
        · exact ⟨.inl rfl, rfl⟩
      · exact ⟨.inl rfl, rfl⟩

theorem serviceDatagrams_passed (conn : UdpConn) (sock : U) (now : Instant) :
    conn.Passed now (serviceDatagrams conn sock now).2.1 := by
  have h := relayDatagrams_passed now conn.appToOut.room conn sock
  unfold serviceDatagrams
  dsimp only
  split
  · exact h.trans (replyDatagrams_passed _ _ _ _ _ _)
  · exact h

end Pass

/-! ### The heap and the UDP flows -/

namespace UdpFiled

variable {m m' : ConnManager} {clock : Instant}

theorem new [UdpApi U] : UdpFiled (.new U) clock := ⟨fun _ => rfl, nofun, nofun⟩

theorem mono (h : UdpFiled m clock) {now : Instant} (ht : clock ≤ now) : UdpFiled m now :=
  ⟨h.entry, fun key conn hc => (h.last key conn hc).trans ht, h.deadline⟩

/-- Entries of other flows do not matter. -/
theorem congr (h : UdpFiled m clock)
    (hd : ∀ key, entriesOf m'.deadlines (.udp key) = entriesOf m.deadlines (.udp key))
    (hu : m'.udp = m.udp) : UdpFiled m' clock :=
  ⟨fun key => by rw [hd, hu]; exact h.entry key, hu ▸ h.last, hu ▸ h.deadline⟩

theorem push_tcp (h : UdpFiled m clock) {d : Instant} {key : FourTuple}
    (hd : m'.deadlines = pushDeadline m.deadlines (d, .tcp key)) (hu : m'.udp = m.udp) :
    UdpFiled m' clock := by
  refine ⟨fun key' => eq_toList_of_perm ?_, hu ▸ h.last, hu ▸ h.deadline⟩
  rw [hd, hu, ← h.entry]
  exact entriesOf_push m.deadlines (d, .tcp key) (.udp key')

/-- A live flow moves on, and keeps its deadline. -/
theorem moved (h : UdpFiled m clock) {key : FourTuple} {conn conn' : UdpConn}
    (hc : m.udp.lookup key = some conn) (hd : m'.deadlines = m.deadlines)
    (hu : m'.udp = m.udp.insert key conn') (hdl : conn'.deadline = conn.deadline)
    (hl : conn.last ≤ conn'.last) (hl' : conn'.last ≤ clock) : UdpFiled m' clock := by
  have hlook : ∀ key', m'.udp.lookup key' = if key' = key then some conn' else m.udp.lookup key' :=
    fun key' => by rw [hu, Finmap.lookup_insert_eq]
  refine ⟨fun key' => ?_, fun key' conn₁ hc₁ => ?_, fun key' conn₁ hc₁ => ?_⟩
  · rw [hd, hlook, h.entry key']
    split
    · next hk =>
        subst hk
        rw [hc, Option.map_some, Option.map_some, UdpConn.entry, UdpConn.entry, hdl]
    · rfl
  · rw [hlook] at hc₁
    split at hc₁
    · cases hc₁
      exact hl'
    · exact h.last key' conn₁ hc₁
  · rw [hlook] at hc₁
    split at hc₁
    · cases hc₁
      rw [hdl]
      exact (h.deadline key conn hc).trans (Nat.add_le_add_right hl _)
    · exact h.deadline key' conn₁ hc₁

/-- A flow without an entry is given one. -/
theorem filed (h : UdpFiled m clock) {key : FourTuple} {conn : UdpConn} {heap : List Deadline}
    (hnone : entriesOf heap (.udp key) = [])
    (hother : ∀ key', key' ≠ key → entriesOf heap (.udp key') = entriesOf m.deadlines (.udp key'))
    (hd : m'.deadlines = pushDeadline heap (conn.entry key)) (hu : m'.udp = m.udp.insert key conn)
    (hl : conn.last ≤ clock) (hdl : conn.deadline ≤ conn.last + UDP_IDLE) : UdpFiled m' clock := by
  have hlook : ∀ key', m'.udp.lookup key' = if key' = key then some conn else m.udp.lookup key' :=
    fun key' => by rw [hu, Finmap.lookup_insert_eq]
  refine ⟨fun key' => eq_toList_of_perm ?_, fun key' conn₁ hc₁ => ?_, fun key' conn₁ hc₁ => ?_⟩
  · have hp := entriesOf_push heap (conn.entry key) (.udp key')
    rw [hd, hlook]
    by_cases hk : key' = key
    · subst hk
      have heq : (conn.entry key').2 = .udp key' := rfl
      rw [if_pos heq, hnone] at hp
      rw [if_pos rfl]
      exact hp
    · have hne : (conn.entry key).2 ≠ .udp key' := fun e => hk (by cases e; rfl)
      rw [if_neg hne, hother key' hk, h.entry key'] at hp
      rw [if_neg hk]
      exact hp
  all_goals
    rw [hlook] at hc₁
    split at hc₁
  · cases hc₁
    exact hl
  · exact h.last key' conn₁ hc₁
  · cases hc₁
    exact hdl
  · exact h.deadline key' conn₁ hc₁

variable [UdpApi U] {sockets sockets' : SocketSet T U}

theorem serviceUdp (hs : Sound m sockets) (h : UdpFiled m clock) {key : FourTuple} {q : Bool}
    (e : m.serviceUdp sockets key clock = .ok (q, m', sockets')) : UdpFiled m' clock := by
  rcases serviceUdp_cases hs e with ⟨-, rfl, -⟩ | ⟨conn, sock, hc, -, rfl, -⟩
  · exact h
  obtain ⟨hl, hdl⟩ := serviceDatagrams_passed conn sock clock
  have hle := h.last key conn hc
  refine h.moved hc rfl rfl hdl ?_ ?_
  · rcases hl with hl | hl <;> rw [hl]
    exact hle
  · rcases hl with hl | hl <;> rw [hl]
    exact hle

theorem egress (h : UdpFiled m clock) (act : EgressAct) (id : FlowId) :
    UdpFiled (m.egress act id) clock := by
  unfold ConnManager.egress
  cases id with
  | tcp key =>
      dsimp only
      split <;> exact h.congr (fun _ => rfl) rfl
  | udp key =>
      dsimp only
      split
      · next conn hc => exact h.moved hc rfl rfl rfl (le_refl _) (h.last key conn hc)
      · exact h

variable [TcpApi T]

theorem serviceTcp (hs : Sound m sockets) (h : UdpFiled m clock) {key : FourTuple} {q : Bool}
    (e : m.serviceTcp sockets key = .ok (q, m', sockets')) : UdpFiled m' clock := by
  rcases serviceTcp_cases hs e with ⟨-, rfl, -⟩ | ⟨conn, sock, -, -, ⟨-, rfl, -⟩ | ⟨-, rfl, -⟩⟩
  · exact h
  · exact h.congr (fun _ => rfl) rfl
  · exact h.congr (fun _ => rfl) rfl

/-- An entry that is popped is its flow's own: the flow goes, or is given its next one. -/
theorem expireEntry (hs : Sound m sockets) (h : UdpFiled m clock) {now due : Instant} {id : FlowId}
    {rest : List Deadline} (hd : m.deadlines = (due, id) :: rest)
    (e : ConnManager.expireEntry { m with deadlines := rest } sockets now due id =
      .ok (m', sockets')) : UdpFiled m' clock := by
  -- what the pop leaves of each flow's entries
  have hpop : ∀ key, FlowId.udp key ≠ id →
      entriesOf rest (.udp key) = entriesOf m.deadlines (.udp key) := by
    intro key hk
    rw [hd, entriesOf, entriesOf, List.filter_cons_of_neg (by simpa using hk.symm)]
  have hown : ∀ key, id = .udp key → ∃ conn, m.udp.lookup key = some conn ∧ conn.deadline = due ∧
      entriesOf rest (.udp key) = [] := by
    rintro key rfl
    have hentry := h.entry key
    rw [hd, entriesOf, List.filter_cons_of_pos (by simp)] at hentry
    cases hc : m.udp.lookup key with
    | none =>
        rw [hc] at hentry
        cases hentry
    | some conn =>
        rw [hc, Option.map_some, Option.toList_some, List.cons.injEq] at hentry
        exact ⟨conn, rfl, (congrArg (·.1) hentry.1).symm, hentry.2⟩
  have hs' : Sound { m with deadlines := rest } sockets := hs.congr rfl rfl rfl rfl
  rcases expireEntry_cases hs' e with ⟨rfl, -, -, hno⟩ | ⟨key, conn, rfl, -, -, -, rfl, -⟩ |
      ⟨key, conn, rfl, hc, hdl, hl, -, rfl⟩ | ⟨key, conn, rfl, hc, hdl, -, rfl, -⟩
  · refine h.congr (fun key => ?_) rfl
    by_cases hk : FlowId.udp key = id
    · obtain ⟨conn, hc, hdl, -⟩ := hown key hk.symm
      exact absurd hdl (hno key conn hk.symm hc)
    · exact hpop key hk
  · exact h.congr (fun key' => hpop key' nofun) rfl
  · obtain ⟨-, -, -, hnone⟩ := hown key rfl
    exact h.filed hnone (fun key' hk => hpop key' fun he => hk (by cases he; rfl)) rfl rfl
      (h.last key conn hc) (le_refl _)
  · have hlook : ∀ key', (ConnManager.closeUdp { m with deadlines := rest } key).udp.lookup key' =
        if key' = key then none else m.udp.lookup key' := fun key' => Finmap.lookup_erase_eq _ _ _
    refine ⟨fun key' => ?_, fun key' conn₁ hc₁ => ?_, fun key' conn₁ hc₁ => ?_⟩
    · rw [hlook]
      split
      · next hk =>
          subst hk
          obtain ⟨-, -, -, hnone⟩ := hown key' rfl
          exact hnone
      · next hk => exact (hpop key' fun he => hk (by cases he; rfl)).trans (h.entry key')
    all_goals
      rw [hlook] at hc₁
      split at hc₁
    · cases hc₁
    · exact h.last key' conn₁ hc₁
    · cases hc₁
    · exact h.deadline key' conn₁ hc₁

theorem expireLoop (hs : Sound m sockets) (h : UdpFiled m clock) {now : Instant} {n : ℕ}
    (e : ConnManager.expireLoop now n m sockets = .ok (m', sockets')) : UdpFiled m' clock :=
  expireLoop_invariant (P := fun m _ => UdpFiled m clock)
    (fun _ _ _ _ _ _ _ hs h hd _ e => expireEntry hs h hd e) hs h e

theorem dispatch (hs : Sound m sockets) (h : UdpFiled m clock) {now : Instant} (ht : clock ≤ now)
    {q : Bool} (e : m.dispatch sockets now = .ok (q, m', sockets')) : UdpFiled m' now := by
  obtain ⟨m₁, sockets₁, e₁, h₁, e₂⟩ := dispatch_split hs e
  have hf : UdpFiled m₁ now := (expireLoop hs h e₁).mono ht
  exact serviceAll_invariant (P := fun m _ => UdpFiled m now)
    (fun _ _ _ _ _ _ hs h e => serviceTcp hs h e) (fun _ _ _ _ _ _ hs h e => serviceUdp hs h e)
    h₁.drained (hf.congr (fun _ => rfl) rfl) e₂

theorem onPacket (h : UdpFiled m clock) (flow : Flow) (handle : ℕ) {now : Instant}
    (ht : clock ≤ now) : UdpFiled (m.onPacket sockets flow handle now).1 now := by
  have h' := h.mono ht
  unfold ConnManager.onPacket
  dsimp only
  split
  · split
    · unfold ConnManager.openTcp
      cases TcpApi.listen (T := T) flow.dst with
      | none => exact h'
      | some sock => exact h'.push_tcp rfl rfl
    · exact h'.congr (fun _ => rfl) rfl
  split
  · next hk =>
    split
    · unfold ConnManager.openUdp
      cases hb : UdpApi.bind (U := U) flow.dst with
      | none => exact h'
      | some sock =>
          have hnone : entriesOf m.deadlines (.udp ⟨flow.src, flow.dst⟩) = [] := by
            rw [h.entry, hk.2]
            rfl
          have hconn : (m.openUdp sockets ⟨flow.src, flow.dst⟩ handle now).1.udp =
              m.udp.insert ⟨flow.src, flow.dst⟩
                ⟨handle, .new, .new, none, now, now + UDP_IDLE⟩ := by
            rw [ConnManager.openUdp, hb]
            rfl
          rw [ConnManager.openUdp, hb] at hconn
          exact h'.filed hnone (fun _ _ => rfl) rfl hconn (le_refl _) (le_refl _)
    · exact h'.congr (fun _ => rfl) rfl
  · exact h'

end UdpFiled

/-! ### Nondecreasing times -/

/-- The engine, and the time of its last call. -/
structure Clocked (T U : Type) where
  engine : Engine T U
  clock : Instant

/-- One step, at nondecreasing times. -/
def ClockStep [TcpApi T] [UdpApi U] (c : Clocked T U) (e : ConnEvent T U) (c' : Clocked T U) :
    Prop :=
  ConnStep c.engine e c'.engine ∧ (∀ now, e.time = some now → c.clock ≤ now) ∧
    c'.clock = e.time.getD c.clock

/-- The states the engine reaches at nondecreasing times. -/
def ClockReachable [TcpApi T] [UdpApi U] : Clocked T U → Prop :=
  Reachable (· = ⟨.new T U, 0⟩) ClockStep

section Times
variable [TcpApi T] [UdpApi U]

structure Clocked.Inv (c : Clocked T U) : Prop where
  sound : Sound c.engine.mgr c.engine.sockets
  tcp : Filed c.engine.mgr
  udp : UdpFiled c.engine.mgr c.clock

theorem Clocked.Inv.step {c c' : Clocked T U} {e : ConnEvent T U} (h : c.Inv)
    (he : ClockStep c e c') : c'.Inv := by
  obtain ⟨he, ht, hclock⟩ := he
  refine ⟨h.sound.step he, h.tcp.step h.sound he, ?_⟩
  rw [hclock]
  cases e with
  | onPacket flow handle now =>
      have h' : UdpFiled (c.engine.mgr.onPacket c.engine.sockets flow handle now).1 now :=
        h.udp.onPacket flow handle (ht now rfl)
      rwa [he.2] at h'
  | dispatch now =>
      obtain ⟨q, he⟩ := he
      exact h.udp.dispatch h.sound (ht now rfl) he
  | pollTcp handle sock =>
      obtain ⟨-, he⟩ := he
      rw [he]
      exact h.udp
  | pollUdp handle sock =>
      obtain ⟨-, he⟩ := he
      rw [he]
      exact h.udp
  | mark id =>
      rw [show c'.engine = _ from he]
      exact h.udp.congr (fun _ => rfl) rfl
  | egress id act =>
      rw [show c'.engine = _ from he]
      exact h.udp.egress act id

theorem ClockReachable.inv {c : Clocked T U} (h : ClockReachable c) : c.Inv := by
  refine Reachable.invariant (fun c hc => ?_) (fun _ _ _ h he => h.step he) h
  cases hc
  exact ⟨Sound.new, ⟨List.Pairwise.nil, nofun⟩, .new⟩

end Times

/-! ### An expiry -/

section Expire
variable [TcpApi T] [UdpApi U] {m m' : ConnManager} {sockets sockets' : SocketSet T U}
  {clock now : Instant}

omit [UdpApi U] in
/-- Rounds past the last entry that has come due do nothing. -/
theorem expireLoop_more {n k : ℕ} (hk : n ≤ k)
    (e : ConnManager.expireLoop now n m sockets = .ok (m', sockets'))
    (hpast : ∀ f ∈ m'.deadlines, now < f.1) :
    ConnManager.expireLoop now k m sockets = .ok (m', sockets') := by
  induction n generalizing k m sockets with
  | zero =>
      cases e
      -- the first entry ends the loop
      cases k with
      | zero => rfl
      | succ k =>
          unfold ConnManager.expireLoop
          cases hd : m'.deadlines with
          | nil => rfl
          | cons entry rest =>
              have hlt := hpast entry (hd ▸ List.mem_cons_self)
              dsimp only
              rw [if_pos hlt]
              rfl
  | succ n ih =>
      obtain ⟨k, rfl⟩ := Nat.exists_eq_add_of_le hk
      rw [Nat.add_right_comm]
      unfold ConnManager.expireLoop at e ⊢
      cases hd : m.deadlines with
      | nil =>
          rw [hd] at e
          exact e
      | cons entry rest =>
          rw [hd] at e
          dsimp only at e ⊢
          split at e
          · next hdue =>
              rw [if_pos hdue]
              exact e
          · next hdue =>
              rw [if_neg hdue]
              obtain ⟨⟨m₁, sockets₁⟩, e₁, e₂⟩ := bind_eq_ok.mp e
              rw [e₁, ok_bind]
              exact ih (Nat.le_add_right n k) e₂

/-- A UDP flow but for its deadline. -/
def UdpConn.undated (conn : UdpConn) : UdpConn := { conn with deadline := 0 }

theorem undated_last {conn conn' : UdpConn} (h : conn.undated = conn'.undated) :
    conn.last = conn'.last := by
  have hl : conn.undated.last = conn'.undated.last := by rw [h]
  exact hl

/-- An expiry takes UDP flows at the end of their idle time.  Of every other flow it moves the
deadline alone. -/
theorem expireLoop_udp (hs : Sound m sockets) {n : ℕ}
    (e : ConnManager.expireLoop now n m sockets = .ok (m', sockets')) (key : FourTuple) :
    (m'.udp.lookup key).map UdpConn.undated = (m.udp.lookup key).map UdpConn.undated ∨
      (m'.udp.lookup key = none ∧ ∃ conn, m.udp.lookup key = some conn ∧
        UDP_IDLE ≤ durationSince now conn.last) := by
  refine expireLoop_invariant (P := fun m₁ _ =>
    (m₁.udp.lookup key).map UdpConn.undated = (m.udp.lookup key).map UdpConn.undated ∨
      (m₁.udp.lookup key = none ∧ ∃ conn, m.udp.lookup key = some conn ∧
        UDP_IDLE ≤ durationSince now conn.last)) ?_ hs (.inl rfl) e
  intro m₁ sockets₁ due id rest m₂ sockets₂ h₁ hP hd hdue e₁
  have hr : Sound { m₁ with deadlines := rest } sockets₁ := h₁.congr rfl rfl rfl rfl
  rcases expireEntry_cases hr e₁ with ⟨rfl, -⟩ | ⟨_, _, -, -, -, -, rfl, -⟩ |
      ⟨key', conn', -, hc', -, -, -, rfl⟩ | ⟨key', conn', -, hc', -, hidle, rfl, -⟩
  · exact hP
  · exact hP
  · dsimp only at hc' ⊢
    rw [Finmap.lookup_insert_eq]
    split
    · next hk =>
        subst hk
        rw [hc'] at hP
        rcases hP with hP | ⟨hnone, -⟩
        · exact .inl hP
        · cases hnone
    · exact hP
  · have hlook : (ConnManager.closeUdp { m₁ with deadlines := rest } key').udp.lookup key =
        if key = key' then none else m₁.udp.lookup key := Finmap.lookup_erase_eq _ _ _
    rw [hlook]
    split
    · next hk =>
        subst hk
        rcases hP with hP | hP
        · change m₁.udp.lookup key = some conn' at hc'
          rw [hc', Option.map_some] at hP
          obtain ⟨conn, hc, hu⟩ := Option.map_eq_some_iff.mp hP.symm
          have hl : conn.last = conn'.last := undated_last hu
          exact .inr ⟨rfl, conn, hc, hl ▸ hidle⟩
        · exact .inr ⟨rfl, hP.2⟩
    · exact hP

/-- What an expiry leaves of the UDP flows: those whose idle time has not ended. -/
theorem expire_udp (hs : Sound m sockets) (ht : Filed m) (h : UdpFiled m clock)
    (e : m.expire sockets now = .ok (m', sockets')) (key : FourTuple) :
    (m'.udp.lookup key).map UdpConn.undated =
      ((m.udp.lookup key).filter fun conn => durationSince now conn.last < UDP_IDLE).map
        UdpConn.undated := by
  rcases expireLoop_udp hs e key with hk | ⟨hk, conn, hc, hidle⟩
  · rw [hk]
    cases hc : m.udp.lookup key with
    | none => rfl
    | some conn =>
        rw [hc, Option.map_some] at hk
        obtain ⟨conn', hc', hu⟩ := Option.map_eq_some_iff.mp hk
        have hl : conn'.last = conn.last := undated_last hu
        -- the flow is left with an entry, which has not come due
        have hf := h.expireLoop hs e
        have hm : conn'.entry key ∈ m'.deadlines := by
          have hentry := hf.entry key
          rw [hc', Option.map_some, Option.toList_some] at hentry
          exact List.mem_of_mem_filter (hentry ▸ List.mem_singleton_self _)
        have hlt := Nat.lt_of_lt_of_le (expire_past hs ht e _ hm) (hf.deadline key conn' hc')
        rw [hl] at hlt
        have hpos : 0 < UDP_IDLE := by decide
        have hlive : durationSince now conn.last < UDP_IDLE := by
          unfold durationSince
          omega
        rw [Option.filter_some, if_pos (decide_eq_true hlive)]
  · rw [hk, hc, Option.filter_some, if_neg (by simpa using hidle)]

/-- What an expiry leaves of the TCP flows: those that are established, or have time left. -/
theorem expire_tcp_eq (hs : Sound m sockets) (h : Filed m)
    (e : m.expire sockets now = .ok (m', sockets')) (key : FourTuple) :
    m'.tcp.lookup key =
      (m.tcp.lookup key).filter fun conn => conn.established || now < conn.deadline := by
  have hkeep : ∀ conn, m.tcp.lookup key = some conn →
      (m'.tcp.lookup key = none ↔ conn.established = false ∧ conn.deadline ≤ now) :=
    fun conn hc => expire_tcp hs h e hc
  rcases expireLoop_keeps hs e key with ⟨hk, -⟩ | ⟨hk, conn, hc, he, hdl⟩
  · rw [hk]
    cases hc : m.tcp.lookup key with
    | none => rfl
    | some conn =>
        have hne : ¬ (conn.established = false ∧ conn.deadline ≤ now) := by
          intro hgone
          have hnone := (hkeep conn hc).mpr hgone
          rw [hk, hc] at hnone
          cases hnone
        rw [Option.filter_some, if_pos ?_]
        cases he : conn.established with
        | true => rfl
        | false => simpa [he] using hne
  · rw [hk, hc, Option.filter_some, if_neg]
    simp [he, hdl]

end Expire

/-! ### The law -/

/-- **The deadline heap is exact.**  After any run at nondecreasing times, and at any time, an
expiry ends, takes the TCP flows that are not established by their deadline and the UDP flows whose
idle time has ended, and no others, and leaves no entry that has come due.  Each UDP flow has one
entry, at its deadline, and each TCP flow that is not established has its own. -/
theorem expire_exact [TcpApi T] [UdpApi U] {c : Clocked T U} (h : ClockReachable c)
    (now : Instant) :
    (∃ m' sockets',
      (∀ n, c.engine.mgr.deadlines.length ≤ n →
        ConnManager.expireLoop now n c.engine.mgr c.engine.sockets = .ok (m', sockets')) ∧
      (∀ key, m'.tcp.lookup key =
        (c.engine.mgr.tcp.lookup key).filter fun conn => conn.established || now < conn.deadline) ∧
      (∀ key, (m'.udp.lookup key).map UdpConn.undated =
        ((c.engine.mgr.udp.lookup key).filter fun conn =>
          durationSince now conn.last < UDP_IDLE).map UdpConn.undated) ∧
      ∀ t, m'.nextDeadline = some t → now < t) ∧
    (∀ key conn, c.engine.mgr.udp.lookup key = some conn →
      entriesOf c.engine.mgr.deadlines (.udp key) = [(conn.deadline, .udp key)]) ∧
    ∀ key conn, c.engine.mgr.tcp.lookup key = some conn → conn.established = false →
      (conn.deadline, FlowId.tcp key) ∈ c.engine.mgr.deadlines := by
  obtain ⟨hs, ht, hu⟩ := h.inv
  obtain ⟨m', sockets', e, -⟩ := hs.expireLoop now c.engine.mgr.deadlines.length
  have hpast := expire_past hs ht e
  refine ⟨⟨m', sockets', fun n hn => expireLoop_more hn e hpast, expire_tcp_eq hs ht e,
    expire_udp hs ht hu e, fun t hn => ?_⟩, fun key conn hc => ?_, ht.tcp⟩
  · obtain ⟨f, hf, rfl⟩ := Option.map_eq_some_iff.mp hn
    exact hpast f (List.mem_of_mem_head? hf)
  · rw [hu.entry key, hc]
    rfl

/-! ### A tuple that is used again -/

/-- The history of the sockets aside, a watched run is one at nondecreasing times. -/
theorem Run.clocked [TcpApi T] [UdpApi U] {w w' : Watched T U} {es : List (ConnEvent T U)}
    (h : Run WatchStep w es w') :
    Run ClockStep ⟨w.engine, w.clock⟩ es ⟨w'.engine, w'.clock⟩ := by
  induction h with
  | refl => exact .refl _
  | @more w w₁ w' e es h _ ih =>
      obtain ⟨he, ht, hw⟩ := h
      have hclock : w₁.clock = e.time.getD w.clock := by
        rw [hw]
        cases e <;> rfl
      exact .more ⟨he, ht, hclock⟩ ih

/-- A flow closes, and another opens on its tuple five seconds later. -/
def usedAgain : List (ConnEvent SimTcp SimUdp) :=
  [.onPacket webSyn 0 0, .pollTcp 0 ⟨.closed, []⟩, .dispatch 1, .onPacket webSyn 0 (secs 5)]

/-- At twelve seconds the entry of the first flow has come due, and the second flow is kept. -/
theorem expire_exact_usedAgain : ∃ (c : Clocked SimTcp SimUdp) (m : ConnManager)
    (sockets : SocketSet SimTcp SimUdp), Run ClockStep ⟨.new SimTcp SimUdp, 0⟩ usedAgain c ∧
      c.engine.mgr.deadlines.map (·.1) = [secs 10, secs 15] ∧
      c.engine.mgr.expire c.engine.sockets (secs 12) = .ok (m, sockets) ∧
      (m.tcp.lookup ⟨webSyn.src, webSyn.dst⟩).map (·.deadline) = some (secs 15) := by
  have hr : Run ClockStep ⟨.new SimTcp SimUdp, 0⟩ usedAgain _ :=
    Run.clocked (Run.watched .new (by decide +kernel) :
      Run WatchStep (.new SimTcp SimUdp) usedAgain _)
  obtain ⟨⟨m, sockets, hloop, htcp, -⟩, -⟩ := expire_exact ⟨_, _, rfl, hr⟩ (secs 12)
  refine ⟨_, m, sockets, hr, by decide +kernel, hloop _ (le_refl _), ?_⟩
  rw [htcp]
  decide +kernel

end Tunnel.Conn
