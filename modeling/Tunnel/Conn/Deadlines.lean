import Tunnel.Conn.Admission

/-!
# Conn — The deadline heap

The entries of the heap are lazily validated: an entry may outlive its flow, and a flow is retired
by its own entry alone.

* `serviceTcp_cases`, `serviceUdp_cases`, `expireEntry_cases`: what one pass, and one due entry, can
  do.  `dispatch_split`: a dispatch, as an expiry and the passes after it.
* `Filed`: the heap is in order, and each handshake that is not done has its entry in it.
* `expire_past`: no entry that an expiry leaves has come due.
* `expire_tcp`: an expiry takes the TCP flows that have not been sampled Established by their
  deadline, and no others.
-/

namespace Tunnel.Conn
open Support

/-! ### The heap -/

/-- Earliest first. -/
def Ordered (heap : List Deadline) : Prop := heap.Pairwise fun e f => e.1 ≤ f.1

theorem mem_pushDeadline {heap : List Deadline} {e f : Deadline} :
    f ∈ pushDeadline heap e ↔ f = e ∨ f ∈ heap := List.mem_orderedInsert Deadline.le

theorem Ordered.push {heap : List Deadline} (h : Ordered heap) (e : Deadline) :
    Ordered (pushDeadline heap e) := by
  induction heap with
  | nil => exact List.pairwise_singleton _ _
  | cons f rest ih =>
      obtain ⟨hf, hr⟩ := List.pairwise_cons.mp h
      change Ordered (List.orderedInsert Deadline.le e (f :: rest))
      rw [List.orderedInsert_cons]
      split
      · next hle =>
          have hef : e.1 ≤ f.1 := by
            rcases hle with hlt | ⟨heq, -⟩
            · exact le_of_lt hlt
            · exact le_of_eq heq
          refine List.pairwise_cons.mpr ⟨fun g hg => ?_, h⟩
          rcases List.mem_cons.mp hg with rfl | hg
          · exact hef
          · exact hef.trans (hf g hg)
      · next hle =>
          have hfe : f.1 ≤ e.1 := by
            by_contra hlt
            exact hle (.inl (not_le.mp hlt))
          refine List.pairwise_cons.mpr ⟨fun g hg => ?_, ih hr⟩
          rcases mem_pushDeadline.mp hg with rfl | hg
          · exact hfe
          · exact hf g hg

/-- The entries that have come due. -/
def dueCount (now : Instant) (heap : List Deadline) : ℕ := heap.countP (·.1 ≤ now)

theorem dueCount_push {now : Instant} {heap : List Deadline} {e : Deadline} (h : now < e.1) :
    dueCount now (pushDeadline heap e) = dueCount now heap := by
  unfold dueCount pushDeadline
  rw [(List.perm_orderedInsert Deadline.le e heap).countP_eq, List.countP_cons_of_neg]
  simpa using h

/-! ### What one call can do -/

variable {T U : Type} [TcpApi T] [UdpApi U] {m m' : ConnManager} {sockets sockets' : SocketSet T U}

theorem serviceTcp_cases (h : Sound m sockets) {key : FourTuple} {q : Bool}
    (e : m.serviceTcp sockets key = .ok (q, m', sockets')) :
    (m.tcp.lookup key = none ∧ m' = m ∧ sockets' = sockets) ∨
    ∃ conn sock, m.tcp.lookup key = some conn ∧ sockets.lookup conn.handle = some (.tcp sock) ∧
      ((TcpApi.state (serviceConn conn sock).2.2 = .closed ∧
          m' = m.closeTcp key ∧ sockets' = sockets.erase conn.handle) ∨
        (TcpApi.state (serviceConn conn sock).2.2 ≠ .closed ∧
          m' = { m with tcp := m.tcp.insert key (serviceConn conn sock).2.1 } ∧
          sockets' = sockets.insert conn.handle (.tcp (serviceConn conn sock).2.2))) := by
  cases hc : m.tcp.lookup key with
  | none =>
      rw [ConnManager.serviceTcp_none hc] at e
      cases e
      exact .inl ⟨rfl, rfl, rfl⟩
  | some conn =>
      obtain ⟨sock, hs⟩ := h.tcp_socket hc
      rw [ConnManager.serviceTcp_eq hc hs] at e
      refine .inr ⟨conn, sock, rfl, hs, ?_⟩
      split at e
      · next hcl =>
          cases e
          exact .inl ⟨hcl, rfl, rfl⟩
      · next hcl =>
          cases e
          exact .inr ⟨hcl, rfl, rfl⟩

/-- A pass leaves the other flows and their sockets alone. -/
theorem serviceTcp_of_ne (h : Sound m sockets) {key key' : FourTuple} (hk : key ≠ key') {q : Bool}
    (e : m.serviceTcp sockets key' = .ok (q, m', sockets')) :
    m'.tcp.lookup key = m.tcp.lookup key ∧ ∀ conn, m.tcp.lookup key = some conn →
      sockets'.lookup conn.handle = sockets.lookup conn.handle := by
  rcases serviceTcp_cases h e with ⟨-, rfl, rfl⟩ | ⟨conn', sock', hc', -, hcase⟩
  · exact ⟨rfl, fun _ _ => rfl⟩
  have hne : ∀ conn, m.tcp.lookup key = some conn → conn.handle ≠ conn'.handle :=
    fun conn hc => h.tcpPool.handle_ne hc hc' hk
  rcases hcase with ⟨-, rfl, rfl⟩ | ⟨-, rfl, rfl⟩
  · rw [ConnManager.lookup_closeTcp, if_neg hk]
    exact ⟨rfl, fun conn hc => by rw [Finmap.lookup_erase_eq, if_neg (hne conn hc)]⟩
  · change Finmap.lookup key (m.tcp.insert key' _) = _ ∧ _
    rw [Finmap.lookup_insert_eq, if_neg hk]
    exact ⟨rfl, fun conn hc => by rw [Finmap.lookup_insert_eq, if_neg (hne conn hc)]⟩

omit [TcpApi T] in
theorem serviceUdp_cases (h : Sound m sockets) {key : FourTuple} {now : Instant} {q : Bool}
    (e : m.serviceUdp sockets key now = .ok (q, m', sockets')) :
    (m.udp.lookup key = none ∧ m' = m ∧ sockets' = sockets) ∨
    ∃ conn sock, m.udp.lookup key = some conn ∧ sockets.lookup conn.handle = some (.udp sock) ∧
      m' = { m with udp := m.udp.insert key (serviceDatagrams conn sock now).2.1 } ∧
      sockets' = sockets.insert conn.handle (.udp (serviceDatagrams conn sock now).2.2) := by
  cases hc : m.udp.lookup key with
  | none =>
      rw [ConnManager.serviceUdp_none now hc] at e
      cases e
      exact .inl ⟨rfl, rfl, rfl⟩
  | some conn =>
      obtain ⟨sock, hs⟩ := h.udp_socket hc
      rw [ConnManager.serviceUdp_eq now hc hs] at e
      cases e
      exact .inr ⟨conn, sock, rfl, hs, rfl, rfl⟩

/-- A due entry does nothing, reaps its TCP flow, files its UDP flow's next entry, or retires its
UDP flow. -/
theorem expireEntry_cases (h : Sound m sockets) {now due : Instant} {id : FlowId}
    (e : m.expireEntry sockets now due id = .ok (m', sockets')) :
    (m' = m ∧ sockets' = sockets ∧
      (∀ key conn, id = .tcp key → m.tcp.lookup key = some conn →
        conn.established = true ∨ conn.deadline ≠ due) ∧
      ∀ key conn, id = .udp key → m.udp.lookup key = some conn → conn.deadline ≠ due) ∨
    (∃ key conn, id = .tcp key ∧ m.tcp.lookup key = some conn ∧ conn.established = false ∧
      conn.deadline = due ∧ m' = (m.closeTcp key).noteFlow true key .reaped ∧
      sockets' = sockets.erase conn.handle) ∨
    (∃ key conn, id = .udp key ∧ m.udp.lookup key = some conn ∧ conn.deadline = due ∧
      durationSince now conn.last < UDP_IDLE ∧ sockets' = sockets ∧
      m' = { m with
        udp := m.udp.insert key { conn with deadline := conn.last + UDP_IDLE }
        deadlines := pushDeadline m.deadlines (conn.last + UDP_IDLE, .udp key) }) ∨
    ∃ key conn, id = .udp key ∧ m.udp.lookup key = some conn ∧ conn.deadline = due ∧
      UDP_IDLE ≤ durationSince now conn.last ∧
      m' = m.closeUdp key ∧ sockets' = sockets.erase conn.handle := by
  cases id with
  | tcp key =>
      cases hc : m.tcp.lookup key with
      | none =>
          rw [ConnManager.expireEntry_tcp_none now due hc] at e
          cases e
          refine .inl ⟨rfl, rfl, fun key' conn' hk hc' => ?_, nofun⟩
          cases hk
          rw [hc] at hc'
          cases hc'
      | some conn =>
          obtain ⟨sock, hs⟩ := h.tcp_socket hc
          rw [ConnManager.expireEntry_tcp now due hc hs] at e
          split at e
          · next hne =>
              cases e
              refine .inl ⟨rfl, rfl, fun key' conn' hk hc' => ?_, nofun⟩
              cases hk
              rw [hc] at hc'
              cases hc'
              exact hne
          · next hne =>
              cases e
              obtain ⟨h₁, h₂⟩ := not_or.mp hne
              exact .inr (.inl ⟨key, conn, rfl, hc, by simpa using h₁, not_not.mp h₂, rfl, rfl⟩)
  | udp key =>
      cases hc : m.udp.lookup key with
      | none =>
          rw [ConnManager.expireEntry_udp_none now due hc] at e
          cases e
          refine .inl ⟨rfl, rfl, nofun, fun key' conn' hk hc' => ?_⟩
          cases hk
          rw [hc] at hc'
          cases hc'
      | some conn =>
          obtain ⟨sock, hs⟩ := h.udp_socket hc
          rw [ConnManager.expireEntry_udp now due hc hs] at e
          split at e
          · next hd =>
            cases e
            refine .inl ⟨rfl, rfl, nofun, fun key' conn' hk hc' => ?_⟩
            cases hk
            rw [hc] at hc'
            cases hc'
            exact hd
          next hd =>
          split at e
          · next hl =>
              cases e
              exact .inr (.inr (.inl ⟨key, conn, rfl, hc, not_not.mp hd, hl, rfl, rfl⟩))
          · next hl =>
              cases e
              exact .inr (.inr (.inr ⟨key, conn, rfl, hc, not_not.mp hd, not_lt.mp hl, rfl, rfl⟩))

/-- A dispatch is an expiry, and then a pass over each flow that is ready. -/
theorem dispatch_split (h : Sound m sockets) {now : Instant} {q : Bool}
    (e : m.dispatch sockets now = .ok (q, m', sockets')) :
    ∃ m₁ sockets₁, m.expire sockets now = .ok (m₁, sockets₁) ∧ Sound m₁ sockets₁ ∧
      ConnManager.serviceAll now m₁.ready.queue false { m₁ with ready := .new } sockets₁ =
        .ok (q, m', sockets') := by
  obtain ⟨m₁, sockets₁, e₁, h₁⟩ := h.expireLoop now m.deadlines.length
  rw [ConnManager.dispatch, ConnManager.expire, e₁, ok_bind] at e
  exact ⟨m₁, sockets₁, e₁, h₁, e⟩

/-! ### What a loop keeps -/

theorem serviceAll_invariant {P : ConnManager → SocketSet T U → Prop} {now : Instant}
    (htcp : ∀ m sockets key q m' sockets', Sound m sockets → P m sockets →
      m.serviceTcp sockets key = .ok (q, m', sockets') → P m' sockets')
    (hudp : ∀ m sockets key q m' sockets', Sound m sockets → P m sockets →
      m.serviceUdp sockets key now = .ok (q, m', sockets') → P m' sockets')
    {ids : List FlowId} {queued q : Bool} (h : Sound m sockets) (hP : P m sockets)
    (e : ConnManager.serviceAll now ids queued m sockets = .ok (q, m', sockets')) :
    P m' sockets' := by
  induction ids generalizing queued m sockets with
  | nil =>
      cases e
      exact hP
  | cons id ids ih =>
      unfold ConnManager.serviceAll at e
      cases id with
      | tcp key =>
          obtain ⟨q₁, m₁, sockets₁, e₁, h₁⟩ := h.serviceTcp key
          dsimp only at e
          rw [e₁, ok_bind] at e
          exact ih h₁ (htcp _ _ _ _ _ _ h hP e₁) e
      | udp key =>
          obtain ⟨q₁, m₁, sockets₁, e₁, h₁⟩ := h.serviceUdp key now
          dsimp only at e
          rw [e₁, ok_bind] at e
          exact ih h₁ (hudp _ _ _ _ _ _ h hP e₁) e

theorem expireLoop_invariant {P : ConnManager → SocketSet T U → Prop} {now : Instant}
    (hentry : ∀ m sockets due id rest m' sockets', Sound m sockets → P m sockets →
      m.deadlines = (due, id) :: rest → due ≤ now →
      ConnManager.expireEntry { m with deadlines := rest } sockets now due id =
        .ok (m', sockets') → P m' sockets')
    {n : ℕ} (h : Sound m sockets) (hP : P m sockets)
    (e : ConnManager.expireLoop now n m sockets = .ok (m', sockets')) : P m' sockets' := by
  induction n generalizing m sockets with
  | zero =>
      cases e
      exact hP
  | succ n ih =>
      unfold ConnManager.expireLoop at e
      cases hd : m.deadlines with
      | nil =>
          rw [hd] at e
          cases e
          exact hP
      | cons entry rest =>
          obtain ⟨due, id⟩ := entry
          rw [hd] at e
          dsimp only at e
          split at e
          · cases e
            exact hP
          · next hdue =>
              have hr : Sound { m with deadlines := rest } sockets := h.congr rfl rfl rfl rfl
              obtain ⟨m₁, sockets₁, e₁, h₁⟩ := hr.expireEntry now due id
              rw [e₁, ok_bind] at e
              exact ih h₁ (hentry _ _ _ _ _ _ _ h hP hd (not_lt.mp hdue) e₁) e

/-! ### Entries and flows -/

/-- The heap is in order, and holds the entry of each handshake that is not done. -/
structure Filed (m : ConnManager) : Prop where
  ordered : Ordered m.deadlines
  tcp : ∀ key conn, m.tcp.lookup key = some conn → conn.established = false →
    (conn.deadline, FlowId.tcp key) ∈ m.deadlines

namespace Filed

/-- Flows may go and handshakes be done. -/
theorem of_tcp (h : Filed m) (hd : m'.deadlines = m.deadlines)
    (ht : ∀ key conn', m'.tcp.lookup key = some conn' → conn'.established = false →
      ∃ conn, m.tcp.lookup key = some conn ∧ conn.established = false ∧
        conn'.deadline = conn.deadline) : Filed m' := by
  refine ⟨hd ▸ h.ordered, fun key conn' hc he => ?_⟩
  obtain ⟨conn, hc₀, he₀, hdl⟩ := ht key conn' hc he
  rw [hd, hdl]
  exact h.tcp key conn hc₀ he₀

theorem congr (h : Filed m) (hd : m'.deadlines = m.deadlines) (ht : m'.tcp = m.tcp) : Filed m' :=
  h.of_tcp hd fun _ _ hc he => ⟨_, ht ▸ hc, he, rfl⟩

/-- An entry more does no harm. -/
theorem push (h : Filed m) (e : Deadline) (hd : m'.deadlines = pushDeadline m.deadlines e)
    (ht : m'.tcp = m.tcp) : Filed m' :=
  ⟨hd ▸ h.ordered.push e, fun key conn hc he =>
    hd ▸ mem_pushDeadline.mpr (.inr (h.tcp key conn (ht ▸ hc) he))⟩

theorem serviceTcp (hs : Sound m sockets) (h : Filed m) {key : FourTuple} {q : Bool}
    (e : m.serviceTcp sockets key = .ok (q, m', sockets')) : Filed m' := by
  rcases serviceTcp_cases hs e with ⟨-, rfl, -⟩ | ⟨conn, sock, hc, -, ⟨-, rfl, -⟩ | ⟨-, rfl, -⟩⟩
  · exact h
  · refine h.of_tcp rfl fun key' conn' hc' he => ⟨conn', ?_, he, rfl⟩
    rw [ConnManager.lookup_closeTcp] at hc'
    split at hc'
    · cases hc'
    · exact hc'
  · refine h.of_tcp rfl fun key' conn' hc' he => ?_
    change Finmap.lookup key' (m.tcp.insert key _) = _ at hc'
    rw [Finmap.lookup_insert_eq] at hc'
    split at hc'
    · next hk =>
        cases hc'
        subst hk
        refine ⟨conn, hc, ?_, serviceConn_deadline conn sock⟩
        by_contra hne
        have ht := (serviceConn_established conn sock).mpr (.inl (by simpa using hne))
        rw [he] at ht
        cases ht
    · exact ⟨conn', hc', he, rfl⟩

omit [TcpApi T] in
theorem serviceUdp (hs : Sound m sockets) (h : Filed m) {key : FourTuple} {now : Instant} {q : Bool}
    (e : m.serviceUdp sockets key now = .ok (q, m', sockets')) : Filed m' := by
  rcases serviceUdp_cases hs e with ⟨-, rfl, -⟩ | ⟨conn, sock, -, -, rfl, -⟩
  · exact h
  · exact h.congr rfl rfl

/-- A popped entry was stale, or its flow goes with it, or it was not a handshake's. -/
theorem expireEntry (hs : Sound m sockets) (h : Filed m) {now due : Instant} {id : FlowId}
    {rest : List Deadline} (hd : m.deadlines = (due, id) :: rest)
    (e : ConnManager.expireEntry { m with deadlines := rest } sockets now due id =
      .ok (m', sockets')) : Filed m' := by
  have hord : Ordered rest := (List.pairwise_cons.mp (hd ▸ h.ordered)).2
  -- every other handshake keeps its entry
  have hrest : ∀ key conn, m.tcp.lookup key = some conn → conn.established = false →
      (due, id) ≠ (conn.deadline, .tcp key) → (conn.deadline, .tcp key) ∈ rest := by
      intro key conn hc he hne
      have hm := h.tcp key conn hc he
      rw [hd] at hm
      exact List.mem_of_ne_of_mem hne.symm hm
  have hs' : Sound { m with deadlines := rest } sockets := hs.congr rfl rfl rfl rfl
  rcases expireEntry_cases hs' e with ⟨rfl, -, hno, -⟩ | ⟨key, conn, rfl, hc, he, hdl, rfl, -⟩ |
      ⟨key, conn, rfl, hc, hdl, hl, -, rfl⟩ | ⟨key, conn, rfl, hc, hdl, -, rfl, -⟩
  · refine ⟨hord, fun key conn hc he => hrest key conn hc he fun heq => ?_⟩
    cases heq
    rcases hno key conn rfl hc with ht | hn
    · rw [he] at ht
      cases ht
    · exact hn rfl
  · refine ⟨hord, fun key' conn' hc' he' => ?_⟩
    rw [ConnManager.noteFlow_tcp, ConnManager.lookup_closeTcp] at hc'
    split at hc'
    · cases hc'
    · next hk => exact hrest key' conn' hc' he' fun heq => hk (by cases heq; rfl)
  · have hf : Filed { m with deadlines := rest } :=
      ⟨hord, fun key' conn' hc' he' => hrest key' conn' hc' he' nofun⟩
    exact hf.push _ rfl rfl
  · exact ⟨hord, fun key' conn' hc' he' => hrest key' conn' hc' he' nofun⟩

theorem expireLoop (hs : Sound m sockets) (h : Filed m) {now : Instant} {n : ℕ}
    (e : ConnManager.expireLoop now n m sockets = .ok (m', sockets')) : Filed m' :=
  expireLoop_invariant (P := fun m _ => Filed m)
    (fun _ _ _ _ _ _ _ hs h hd _ e => expireEntry hs h hd e) hs h e

theorem serviceAll (hs : Sound m sockets) (h : Filed m) {now : Instant} {ids : List FlowId}
    {queued q : Bool}
    (e : ConnManager.serviceAll now ids queued m sockets = .ok (q, m', sockets')) : Filed m' :=
  serviceAll_invariant (P := fun m _ => Filed m)
    (fun _ _ _ _ _ _ hs h e => serviceTcp hs h e) (fun _ _ _ _ _ _ hs h e => serviceUdp hs h e)
    hs h e

theorem dispatch (hs : Sound m sockets) (h : Filed m) {now : Instant} {q : Bool}
    (e : m.dispatch sockets now = .ok (q, m', sockets')) : Filed m' := by
  obtain ⟨m₁, sockets₁, e₁, h₁, e₂⟩ := dispatch_split hs e
  exact serviceAll h₁.drained ((expireLoop hs h e₁).congr rfl rfl) e₂

omit [TcpApi T] [UdpApi U] in
/-- A new flow comes with its entry. -/
theorem openTcp (h : Filed m) (key : FourTuple) (conn : TcpConn)
    (hd : m'.deadlines = pushDeadline m.deadlines (conn.deadline, .tcp key))
    (ht : m'.tcp = m.tcp.insert key conn) : Filed m' := by
  refine ⟨hd ▸ h.ordered.push _, fun key' conn' hc he => hd ▸ mem_pushDeadline.mpr ?_⟩
  rw [ht, Finmap.lookup_insert_eq] at hc
  split at hc
  · next hk =>
      cases hc
      exact .inl (by rw [hk])
  · exact .inr (h.tcp key' conn' hc he)

theorem onPacket (h : Filed m) (flow : Flow) (handle : ℕ) (now : Instant) :
    Filed (m.onPacket sockets flow handle now).1 := by
  unfold ConnManager.onPacket
  dsimp only
  split
  · split
    · unfold ConnManager.openTcp
      cases TcpApi.listen (T := T) flow.dst with
      | none => exact h
      | some sock =>
          exact h.openTcp ⟨flow.src, flow.dst⟩
            ⟨handle, some .new, .new, .empty, false, false, now + TCP_HANDSHAKE_TIMEOUT⟩ rfl rfl
    · exact h.congr rfl rfl
  split
  · split
    · unfold ConnManager.openUdp
      cases UdpApi.bind (U := U) flow.dst with
      | none => exact h
      | some sock => exact h.push (now + UDP_IDLE, .udp ⟨flow.src, flow.dst⟩) rfl rfl
    · exact h.congr rfl rfl
  · exact h

omit [TcpApi T] [UdpApi U] in
theorem egress (h : Filed m) (act : EgressAct) (id : FlowId) : Filed (m.egress act id) := by
  refine h.of_tcp ?_ fun key conn' hc' he => ?_
  · unfold ConnManager.egress
    cases id <;> dsimp only <;> split <;> rfl
  · obtain ⟨conn, hc, hid⟩ := ConnManager.egress_flow hc'
    exact ⟨conn, hc, (congrArg (·.2.2) hid).symm.trans he, congrArg (·.2.1) hid⟩

theorem step {s s' : Engine T U} {e : ConnEvent T U} (hs : Sound s.mgr s.sockets)
    (h : Filed s.mgr) (he : ConnStep s e s') : Filed s'.mgr := by
  cases e with
  | onPacket flow handle now =>
      have h' : Filed (s.mgr.onPacket s.sockets flow handle now).1 := h.onPacket flow handle now
      rwa [he.2] at h'
  | dispatch now =>
      obtain ⟨q, he⟩ := he
      exact dispatch hs h he
  | pollTcp handle sock =>
      obtain ⟨-, rfl⟩ := he
      exact h
  | pollUdp handle sock =>
      obtain ⟨-, rfl⟩ := he
      exact h
  | mark id =>
      cases he
      exact h.congr rfl rfl
  | egress id act =>
      cases he
      exact h.egress act id

end Filed

theorem ConnReachable.filed {s : Engine T U} (h : ConnReachable s) : Filed s.mgr := by
  have hi := Reachable.invariant (I := fun s : Engine T U => Sound s.mgr s.sockets ∧ Filed s.mgr)
    (fun s h₀ => ?_) (fun _ _ _ h he => ⟨h.1.step he, Filed.step h.1 h.2 he⟩) h
  · exact hi.2
  · cases h₀
    exact ⟨Sound.new, List.Pairwise.nil, nofun⟩

/-! ### An expiry -/

/-- Enough rounds leave no entry that has come due: one that is put back comes due later. -/
theorem expireLoop_past (hs : Sound m sockets) (h : Filed m) {now : Instant} {n : ℕ}
    (hn : dueCount now m.deadlines ≤ n)
    (e : ConnManager.expireLoop now n m sockets = .ok (m', sockets')) :
    ∀ f ∈ m'.deadlines, now < f.1 := by
  induction n generalizing m sockets with
  | zero =>
      cases e
      intro f hf
      have hz : dueCount now m'.deadlines = 0 := Nat.le_zero.mp hn
      simpa using List.countP_eq_zero.mp hz f hf
  | succ n ih =>
      unfold ConnManager.expireLoop at e
      cases hd : m.deadlines with
      | nil =>
          rw [hd] at e
          cases e
          rw [hd]
          exact fun f hf => absurd hf List.not_mem_nil
      | cons entry rest =>
          obtain ⟨due, id⟩ := entry
          have hord : Ordered ((due, id) :: rest) := hd ▸ h.ordered
          rw [hd] at e hn
          dsimp only at e
          split at e
          · next hdue =>
              cases e
              rw [hd]
              intro f hf
              rcases List.mem_cons.mp hf with rfl | hf
              · exact hdue
              · exact lt_of_lt_of_le hdue ((List.pairwise_cons.mp hord).1 f hf)
          · next hdue =>
              have hr : Sound { m with deadlines := rest } sockets := hs.congr rfl rfl rfl rfl
              obtain ⟨m₁, sockets₁, e₁, h₁⟩ := hr.expireEntry now due id
              rw [e₁, ok_bind] at e
              refine ih h₁ (h.expireEntry hs hd e₁) ?_ e
              have hcount : dueCount now ((due, id) :: rest) = dueCount now rest + 1 :=
                List.countP_cons_of_pos (by simpa using hdue)
              have hm₁ : dueCount now m₁.deadlines = dueCount now rest := by
                rcases expireEntry_cases hr e₁ with ⟨rfl, -⟩ | ⟨_, _, -, -, -, -, rfl, -⟩ |
                    ⟨key, conn, -, -, -, hl, -, rfl⟩ | ⟨_, _, -, -, -, -, rfl, -⟩
                · rfl
                · rfl
                · -- what is put back is not due, so the count still falls
                  have hlt : now < conn.last + UDP_IDLE := lt_add_of_tsub_lt_left hl
                  exact dueCount_push hlt
                · rfl
              omega

/-- No entry that an expiry leaves has come due. -/
theorem expire_past (hs : Sound m sockets) (h : Filed m) {now : Instant}
    (e : m.expire sockets now = .ok (m', sockets')) : ∀ f ∈ m'.deadlines, now < f.1 :=
  expireLoop_past hs h List.countP_le_length e

/-- An expiry takes flows whose handshake is not done by its deadline.  It keeps every other flow
and its socket. -/
theorem expireLoop_keeps (hs : Sound m sockets) {now : Instant} {n : ℕ}
    (e : ConnManager.expireLoop now n m sockets = .ok (m', sockets')) (key : FourTuple) :
    (m'.tcp.lookup key = m.tcp.lookup key ∧ ∀ conn, m.tcp.lookup key = some conn →
        sockets'.lookup conn.handle = sockets.lookup conn.handle) ∨
      (m'.tcp.lookup key = none ∧ ∃ conn, m.tcp.lookup key = some conn ∧
        conn.established = false ∧ conn.deadline ≤ now) := by
  refine expireLoop_invariant (P := fun m₁ sockets₁ =>
    (m₁.tcp.lookup key = m.tcp.lookup key ∧ ∀ conn, m.tcp.lookup key = some conn →
        sockets₁.lookup conn.handle = sockets.lookup conn.handle) ∨
      (m₁.tcp.lookup key = none ∧ ∃ conn, m.tcp.lookup key = some conn ∧
        conn.established = false ∧ conn.deadline ≤ now)) ?_ hs (.inl ⟨rfl, fun _ _ => rfl⟩) e
  intro m₁ sockets₁ due id rest m₂ sockets₂ h₁ hP hd hdue e₁
  have hr : Sound { m₁ with deadlines := rest } sockets₁ := h₁.congr rfl rfl rfl rfl
  rcases expireEntry_cases hr e₁ with ⟨rfl, rfl, -⟩ | ⟨key', conn', rfl, hc', he', hdl, rfl, rfl⟩ |
      ⟨key', conn', -, -, -, -, rfl, rfl⟩ | ⟨key', conn', -, hc', -, -, rfl, rfl⟩
  · exact hP
  · rcases hP with ⟨hk, hsock⟩ | ⟨hk, hex⟩
    · by_cases hkey : key = key'
      · subst hkey
        refine .inr ⟨?_, conn', hk ▸ hc', he', hdl ▸ hdue⟩
        rw [ConnManager.noteFlow_tcp, ConnManager.lookup_closeTcp, if_pos rfl]
      · refine .inl ⟨?_, fun conn hc => ?_⟩
        · rw [ConnManager.noteFlow_tcp, ConnManager.lookup_closeTcp, if_neg hkey]
          exact hk
        · have hne := h₁.tcpPool.handle_ne (hk.trans hc) hc' hkey
          rw [Finmap.lookup_erase_eq, if_neg hne, hsock conn hc]
    · refine .inr ⟨?_, hex⟩
      rw [ConnManager.noteFlow_tcp, ConnManager.lookup_closeTcp]
      exact (ite_eq_left_iff.mpr fun _ => hk)
  · exact hP
  · rcases hP with ⟨hk, hsock⟩ | hgone
    · refine .inl ⟨hk, fun conn hc => ?_⟩
      have hne := h₁.handle_ne (hk.trans hc) hc'
      rw [Finmap.lookup_erase_eq, if_neg hne, hsock conn hc]
    · exact .inr hgone

/-- An expiry takes the TCP flows whose handshake is not done by its deadline, and no others. -/
theorem expire_tcp (hs : Sound m sockets) (h : Filed m) {now : Instant}
    (e : m.expire sockets now = .ok (m', sockets')) {key : FourTuple} {conn : TcpConn}
    (hc : m.tcp.lookup key = some conn) :
    m'.tcp.lookup key = none ↔ conn.established = false ∧ conn.deadline ≤ now := by
  rcases expireLoop_keeps hs e key with ⟨hk, -⟩ | ⟨hk, conn', hc', he, hdl⟩
  · rw [hk, hc]
    refine ⟨nofun, fun ⟨he, hdl⟩ => ?_⟩
    -- the flow would be left with an entry that has come due
    have hm := (h.expireLoop hs e).tcp key conn (hk.trans hc) he
    exact absurd (expire_past hs h e _ hm) (not_lt.mpr hdl)
  · rw [hc] at hc'
    cases hc'
    exact ⟨fun _ => ⟨he, hdl⟩, fun _ => hk⟩

end Tunnel.Conn
