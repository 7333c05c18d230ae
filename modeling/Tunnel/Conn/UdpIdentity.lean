import Tunnel.Conn.Deadlines
import Tunnel.Conn.Sockets

/-!
# Conn — Whose datagrams

A UDP flow's socket is bound to the flow's destination alone, and smoltcp hands a datagram to the
first socket bound to its destination, whoever sent it.  The flow's `app_src` is the source of the
last datagram read.

* `FirstBound`: the socket that a datagram goes to.
* `Faithful`: a flow has learned no source but its own, and none waits in its socket's queue.
* `udp_identity`: in a run in which each datagram goes to the flow of its own source and
  destination, every flow replies to its own source alone.
-/

namespace Tunnel.Conn
open Support UdpLaws

variable {T U : Type} [UdpApi U]

/-! ### A pass -/

/-- The endpoint that a pass sends the flow's replies to, if it sends any. -/
def UdpConn.replyTo (conn : UdpConn) (sock : U) (now : Instant) : Option SockAddr :=
  (relayDatagrams now conn.appToOut.room conn sock).1.appSrc

theorem replyDatagrams_appSrc (now : Instant) (src : SockAddr) (data : List Bytes) (conn : UdpConn)
    (sock : U) (queued : Bool) :
    (replyDatagrams now src data conn sock queued).1.appSrc = conn.appSrc := by
  induction data generalizing conn sock queued with
  | nil => rfl
  | cons d rest ih =>
      unfold replyDatagrams
      split
      · split
        · rw [ih]
        · rfl
      · rfl

variable [UdpLaws U]

theorem replyDatagrams_keeps (now : Instant) (src : SockAddr) (data : List Bytes) (conn : UdpConn)
    (sock : U) (queued : Bool) :
    bound (replyDatagrams now src data conn sock queued).2.1 = bound sock ∧
      rx (replyDatagrams now src data conn sock queued).2.1 = rx sock := by
  induction data generalizing conn sock queued with
  | nil => exact ⟨rfl, rfl⟩
  | cons d rest ih =>
      have hb := sendSlice_bound sock d src
      have hr := sendSlice_rx sock d src
      unfold replyDatagrams
      split
      · dsimp only
        split
        · next e =>
            rw [e] at hb hr
            obtain ⟨h₁, h₂⟩ := ih _ _ _
            exact ⟨h₁.trans hb, h₂.trans hr⟩
        · next e =>
            rw [e] at hb hr
            exact ⟨hb, hr⟩
      · exact ⟨rfl, rfl⟩

/-- What the relay learns was in the queue, and the queue only shrinks. -/
theorem relayDatagrams_spec (now : Instant) (n : ℕ) (conn : UdpConn) (sock : U) :
    bound (relayDatagrams now n conn sock).2 = bound sock ∧
      rx (relayDatagrams now n conn sock).2 ⊆ rx sock ∧
      ((relayDatagrams now n conn sock).1.appSrc = conn.appSrc ∨
        ∃ dgram ∈ rx sock, (relayDatagrams now n conn sock).1.appSrc = some dgram.2) := by
  induction n generalizing conn sock with
  | zero => exact ⟨rfl, List.Subset.refl _, .inl rfl⟩
  | succ n ih =>
      have hb := recv_bound sock
      unfold relayDatagrams
      split
      · cases hr : UdpApi.recv sock with
        | mk dgram sock' =>
            rw [hr] at hb
            cases dgram with
            | none =>
                have hsub := recv_none sock (by rw [hr])
                rw [hr] at hsub
                exact ⟨hb, hsub, .inl rfl⟩
            | some dgram =>
                obtain ⟨data, endpoint⟩ := dgram
                have hrx := recv_some sock (data, endpoint) (by rw [hr])
                rw [hr] at hrx
                dsimp only at hrx hb ⊢
                obtain ⟨h₁, h₂, h₃⟩ := ih { conn with
                  appSrc := some endpoint, last := now, appToOut := conn.appToOut.send data } sock'
                rw [hrx]
                refine ⟨h₁.trans hb, fun d hd => List.mem_cons_of_mem _ (h₂ hd), .inr ?_⟩
                rcases h₃ with he | ⟨d, hd, he⟩
                · exact ⟨(data, endpoint), List.mem_cons_self, he⟩
                · exact ⟨d, List.mem_cons_of_mem _ hd, he⟩
      · exact ⟨rfl, List.Subset.refl _, .inl rfl⟩

theorem serviceDatagrams_spec (conn : UdpConn) (sock : U) (now : Instant) :
    bound (serviceDatagrams conn sock now).2.2 = bound sock ∧
      rx (serviceDatagrams conn sock now).2.2 ⊆ rx sock ∧
      (serviceDatagrams conn sock now).2.1.appSrc = conn.replyTo sock now := by
  obtain ⟨hb, hr, -⟩ := relayDatagrams_spec now conn.appToOut.room conn sock
  unfold serviceDatagrams UdpConn.replyTo
  dsimp only
  split
  · next src hsrc =>
      obtain ⟨hb', hr'⟩ := replyDatagrams_keeps now src
        (relayDatagrams now conn.appToOut.room conn sock).1.outToApp.queue
        (relayDatagrams now conn.appToOut.room conn sock).1
        (relayDatagrams now conn.appToOut.room conn sock).2 false
      exact ⟨hb'.trans hb, hr' ▸ hr, replyDatagrams_appSrc _ _ _ _ _ _⟩
  · exact ⟨hb, hr, rfl⟩

/-! ### The invariant -/

/-- No source but the flow's own. -/
def OwnSrc (key : FourTuple) (src : Option SockAddr) : Prop := src = none ∨ src = some key.src

/-- A flow's socket is bound to its destination, and the flow has learned, and will learn from what
waits there, no source but its own. -/
structure OwnFlow (key : FourTuple) (conn : UdpConn) (sockets : SocketSet T U) : Prop where
  learned : OwnSrc key conn.appSrc
  bound_eq : ∀ sock, sockets.lookup conn.handle = some (.udp sock) → bound sock = key.dst
  waiting : ∀ sock, sockets.lookup conn.handle = some (.udp sock) →
    ∀ dgram ∈ rx sock, dgram.2 = key.src

def Faithful (m : ConnManager) (sockets : SocketSet T U) : Prop :=
  ∀ key conn, m.udp.lookup key = some conn → OwnFlow key conn sockets

theorem OwnFlow.replyTo {key : FourTuple} {conn : UdpConn} {sockets : SocketSet T U} {sock : U}
    (h : OwnFlow key conn sockets) (hs : sockets.lookup conn.handle = some (.udp sock))
    (now : Instant) : OwnSrc key (conn.replyTo sock now) := by
  obtain ⟨-, -, he | ⟨dgram, hd, he⟩⟩ := relayDatagrams_spec now conn.appToOut.room conn sock
  · rw [UdpConn.replyTo, he]
    exact h.learned
  · rw [UdpConn.replyTo, he, h.waiting sock hs dgram hd]
    exact .inr rfl

/-- Each UDP socket was there, with no fewer datagrams waiting. -/
def Drained (sockets sockets' : SocketSet T U) : Prop :=
  ∀ handle sock', sockets'.lookup handle = some (.udp sock') →
    ∃ sock, sockets.lookup handle = some (.udp sock) ∧ bound sock' = bound sock ∧
      rx sock' ⊆ rx sock

namespace Drained

variable {sockets : SocketSet T U}

theorem refl (sockets : SocketSet T U) : Drained sockets sockets :=
  fun _ sock h => ⟨sock, h, rfl, List.Subset.refl _⟩

theorem erase (handle : ℕ) : Drained sockets (sockets.erase handle) := by
  intro _ sock' h
  rw [Finmap.lookup_erase_eq] at h
  split at h
  · cases h
  · exact ⟨sock', h, rfl, List.Subset.refl _⟩

theorem insert_tcp (handle : ℕ) (sock : T) : Drained sockets (sockets.insert handle (.tcp sock)) := by
    intro _ sock' h
    rw [Finmap.lookup_insert_eq] at h
    split at h
    · cases h
    · exact ⟨sock', h, rfl, List.Subset.refl _⟩

theorem insert_udp {handle : ℕ} {sock sock' : U} (hs : sockets.lookup handle = some (.udp sock))
    (hb : bound sock' = bound sock) (hr : rx sock' ⊆ rx sock) :
    Drained sockets (sockets.insert handle (.udp sock')) := by
  intro _ sock₁ h
  rw [Finmap.lookup_insert_eq] at h
  split at h
  · next e =>
      cases h
      exact ⟨sock, e ▸ hs, hb, hr⟩
  · exact ⟨sock₁, h, rfl, List.Subset.refl _⟩

end Drained

namespace Faithful

variable {m m' : ConnManager} {sockets sockets' : SocketSet T U}

/-- Flows may go, and queues shrink. -/
theorem shrink (h : Faithful m sockets)
    (hm : ∀ key conn', m'.udp.lookup key = some conn' → ∃ conn, m.udp.lookup key = some conn ∧
      conn'.handle = conn.handle ∧ conn'.appSrc = conn.appSrc)
    (hs : Drained sockets sockets') : Faithful m' sockets' := by
  intro key conn' hc'
  obtain ⟨conn, hc, hh, ha⟩ := hm key conn' hc'
  have hf := h key conn hc
  refine ⟨by rw [ha]; exact hf.learned, fun sock' hk => ?_, fun sock' hk d hd => ?_⟩
  · rw [hh] at hk
    obtain ⟨sock, hk₀, hb, -⟩ := hs _ sock' hk
    rw [hb]
    exact hf.bound_eq sock hk₀
  · rw [hh] at hk
    obtain ⟨sock, hk₀, -, hr⟩ := hs _ sock' hk
    exact hf.waiting sock hk₀ d (hr hd)

/-- The flows stay, and queues shrink. -/
theorem congr (h : Faithful m sockets) (hm : m'.udp = m.udp) (hs : Drained sockets sockets') :
    Faithful m' sockets' :=
  h.shrink (fun _ conn hc => ⟨conn, hm ▸ hc, rfl, rfl⟩) hs

/-- A flow goes. -/
theorem erase (h : Faithful m sockets) {key : FourTuple} (hm : m'.udp = m.udp.erase key)
    (hs : Drained sockets sockets') : Faithful m' sockets' := by
  refine h.shrink (fun key' conn hc => ⟨conn, ?_, rfl, rfl⟩) hs
  rw [hm, Finmap.lookup_erase_eq] at hc
  split at hc
  · cases hc
  · exact hc

/-- A flow changes, and keeps its socket and what it has learned. -/
theorem set (h : Faithful m sockets) {key : FourTuple} {conn conn' : UdpConn}
    (hc : m.udp.lookup key = some conn) (hm : m'.udp = m.udp.insert key conn')
    (hh : conn'.handle = conn.handle) (ha : conn'.appSrc = conn.appSrc) : Faithful m' sockets := by
  refine h.shrink (fun key' conn₁ hc₁ => ?_) (Drained.refl _)
  rw [hm, Finmap.lookup_insert_eq] at hc₁
  split at hc₁
  · next e =>
      cases hc₁
      exact ⟨conn, e ▸ hc, hh, ha⟩
  · exact ⟨conn₁, hc₁, rfl, rfl⟩

/-- A flow and its socket are written. -/
theorem insert (h : Faithful m sockets) {key : FourTuple} {conn : UdpConn} {sock : U}
    (hne : ∀ key' conn', m.udp.lookup key' = some conn' → key' ≠ key → conn'.handle ≠ conn.handle)
    (ha : OwnSrc key conn.appSrc) (hb : bound sock = key.dst)
    (hr : ∀ dgram ∈ rx sock, dgram.2 = key.src) (hm : m'.udp = m.udp.insert key conn) :
    Faithful m' (sockets.insert conn.handle (.udp sock)) := by
  intro key' conn₁ hc₁
  rw [hm, Finmap.lookup_insert_eq] at hc₁
  split at hc₁
  · next e =>
      cases hc₁
      subst e
      refine ⟨ha, fun sock' hk => ?_, fun sock' hk => ?_⟩ <;>
        rw [Finmap.lookup_insert] at hk <;> cases hk
      · exact hb
      · exact hr
  · next hkey =>
      have hf := h key' conn₁ hc₁
      refine ⟨hf.learned, fun sock' hk => ?_, fun sock' hk => ?_⟩ <;>
        rw [Finmap.lookup_insert_eq, if_neg (hne key' conn₁ hc₁ hkey)] at hk
      · exact hf.bound_eq sock' hk
      · exact hf.waiting sock' hk

/-- One flow and its socket change. -/
theorem update (hs : Sound m sockets) (h : Faithful m sockets) {key : FourTuple}
    {conn conn' : UdpConn} {sock : U} (hc : m.udp.lookup key = some conn)
    (hh : conn'.handle = conn.handle) (ha : OwnSrc key conn'.appSrc) (hb : bound sock = key.dst)
    (hr : ∀ dgram ∈ rx sock, dgram.2 = key.src) (hm : m'.udp = m.udp.insert key conn') :
    Faithful m' (sockets.insert conn.handle (.udp sock)) := by
  rw [← hh]
  refine h.insert (fun key' conn₁ hc₁ hkey => ?_) ha hb hr hm
  rw [hh]
  exact hs.udpPool.handle_ne hc₁ hc hkey

/-- A flow comes, with an empty socket. -/
theorem opened (hs : Sound m sockets) (h : Faithful m sockets) (key : FourTuple) (conn : UdpConn)
    {sock : U} (hk : sockets.lookup conn.handle = none) (ha : conn.appSrc = none)
    (hb : bound sock = key.dst) (hr : rx sock = []) (hm : m'.udp = m.udp.insert key conn) :
    Faithful m' (sockets.insert conn.handle (.udp sock)) := by
  refine h.insert (fun key' conn₁ hc₁ _ heq => ?_) (.inl ha) hb (by rw [hr]; nofun) hm
  obtain ⟨sock', hs'⟩ := hs.udp_socket hc₁
  rw [heq, hk] at hs'
  cases hs'

theorem serviceUdp (hs : Sound m sockets) (h : Faithful m sockets) {key : FourTuple}
    {now : Instant} {q : Bool} (e : m.serviceUdp sockets key now = .ok (q, m', sockets')) :
    Faithful m' sockets' := by
  rcases serviceUdp_cases hs e with ⟨-, rfl, rfl⟩ | ⟨conn, sock, hc, hk, rfl, rfl⟩
  · exact h
  obtain ⟨hb, hr, ha⟩ := serviceDatagrams_spec conn sock now
  have hf := h key conn hc
  exact h.update hs hc (serviceDatagrams_handle conn sock now) (ha ▸ hf.replyTo hk now)
    (hb.trans (hf.bound_eq sock hk)) (fun d hd => hf.waiting sock hk d (hr hd)) rfl

theorem egress (h : Faithful m sockets) (act : EgressAct) (id : FlowId) :
    Faithful (m.egress act id) sockets := by
  unfold ConnManager.egress
  cases id with
  | tcp key =>
      dsimp only
      split <;> exact h.congr rfl (Drained.refl _)
  | udp key =>
      dsimp only
      split
      · next conn hc => exact h.set hc rfl rfl rfl
      · exact h

variable [TcpApi T]

theorem serviceTcp (hs : Sound m sockets) (h : Faithful m sockets) {key : FourTuple} {q : Bool}
    (e : m.serviceTcp sockets key = .ok (q, m', sockets')) : Faithful m' sockets' := by
  rcases serviceTcp_cases hs e with ⟨-, rfl, rfl⟩ | ⟨conn, sock, -, -, ⟨-, rfl, rfl⟩ |
      ⟨-, rfl, rfl⟩⟩
  · exact h
  · exact h.congr rfl (Drained.erase _)
  · exact h.congr rfl (Drained.insert_tcp _ _)

theorem expireEntry (hs : Sound m sockets) (h : Faithful m sockets) {now due : Instant}
    {id : FlowId} {rest : List Deadline}
    (e : ConnManager.expireEntry { m with deadlines := rest } sockets now due id =
      .ok (m', sockets')) : Faithful m' sockets' := by
  have hr : Sound { m with deadlines := rest } sockets := hs.congr rfl rfl rfl rfl
  rcases expireEntry_cases hr e with ⟨rfl, rfl, -⟩ | ⟨_, _, -, -, -, -, rfl, rfl⟩ |
      ⟨key, conn, -, hc, -, -, rfl, rfl⟩ | ⟨_, _, -, -, -, -, rfl, rfl⟩
  · exact h.congr rfl (Drained.refl _)
  · exact h.congr rfl (Drained.erase _)
  · exact h.set hc rfl rfl rfl
  · exact h.erase rfl (Drained.erase _)

theorem dispatch (hs : Sound m sockets) (h : Faithful m sockets) {now : Instant} {q : Bool}
    (e : m.dispatch sockets now = .ok (q, m', sockets')) : Faithful m' sockets' := by
  obtain ⟨m₁, sockets₁, e₁, h₁, e₂⟩ := dispatch_split hs e
  have hf : Faithful m₁ sockets₁ :=
    expireLoop_invariant (P := Faithful) (fun _ _ _ _ _ _ _ hs h _ _ e => expireEntry hs h e)
      hs h e₁
  exact serviceAll_invariant (P := Faithful) (fun _ _ _ _ _ _ hs h e => serviceTcp hs h e)
    (fun _ _ _ _ _ _ hs h e => serviceUdp hs h e) h₁.drained (hf.congr rfl (Drained.refl _)) e₂

theorem onPacket (hs : Sound m sockets) (h : Faithful m sockets) (flow : Flow) {handle : ℕ}
    (now : Instant) (hh : sockets.lookup handle = none) :
    Faithful (m.onPacket sockets flow handle now).1 (m.onPacket sockets flow handle now).2 := by
  unfold ConnManager.onPacket
  dsimp only
  split
  · split
    · unfold ConnManager.openTcp
      cases TcpApi.listen (T := T) flow.dst with
      | none => exact h
      | some sock => exact h.congr rfl (Drained.insert_tcp _ _)
    · exact h.congr rfl (Drained.refl _)
  split
  · split
    · unfold ConnManager.openUdp
      cases hb : UdpApi.bind (U := U) flow.dst with
      | none => exact h
      | some sock =>
          exact opened hs h ⟨flow.src, flow.dst⟩
            ⟨handle, .new, .new, none, now, now + UDP_IDLE⟩ hh rfl
            (bind_bound _ _ hb) (bind_rx _ _ hb) rfl
    · exact h.congr rfl (Drained.refl _)
  · exact h

end Faithful

/-! ### Delivery -/

variable [TcpApi T]

/-- The socket of the least handle among those bound to `dst`. -/
def FirstBound (sockets : SocketSet T U) (dst : SockAddr) (handle : ℕ) (sock : U) : Prop :=
  sockets.lookup handle = some (.udp sock) ∧ bound sock = dst ∧
    ∀ handle' sock', sockets.lookup handle' = some (.udp sock') → bound sock' = dst →
      handle ≤ handle'

inductive UdpEvent (T U : Type) where
  | engine (e : ConnEvent T U)
  /-- A datagram arrives, and leaves the socket it goes to as `sock`. -/
  | deliver (src dst : SockAddr) (data : Bytes) (sock : U)

/-- A socket takes a datagram when one is delivered to it, if it has room; any other poll takes
datagrams out of its sending queue. -/
def UdpStep (s : Engine T U) : UdpEvent T U → Engine T U → Prop
  | .engine e, s' => ConnStep s e s' ∧ ∀ handle sock old, e = .pollUdp handle sock →
      s.sockets.lookup handle = some (.udp old) → bound sock = bound old ∧ rx sock = rx old
  | .deliver src dst data sock, s' => ∃ handle old, FirstBound s.sockets dst handle old ∧
      bound sock = bound old ∧ (rx sock = rx old ++ [(data, src)] ∨ rx sock = rx old) ∧
      s' = ⟨s.mgr, s.sockets.insert handle (.udp sock)⟩

/-- The flow of the datagram's own source and destination lives, and has the first socket of the
flows to that destination. -/
def OwnFirst (s : Engine T U) : UdpEvent T U → Prop
  | .engine _ => True
  | .deliver src dst _ _ => ∃ conn, s.mgr.udp.lookup ⟨src, dst⟩ = some conn ∧
      ∀ key' conn', s.mgr.udp.lookup key' = some conn' → key'.dst = dst →
        conn.handle ≤ conn'.handle

/-- A delivery to the flow of the datagram's own source leaves every flow its own. -/
theorem UdpStep.keeps {s s' : Engine T U} {e : UdpEvent T U}
    (hi : Sound s.mgr s.sockets ∧ Faithful s.mgr s.sockets) (he : UdpStep s e s')
    (hg : OwnFirst s e) : Sound s'.mgr s'.sockets ∧ Faithful s'.mgr s'.sockets := by
  obtain ⟨hs, h⟩ := hi
  cases e with
  | engine e =>
      obtain ⟨he, hpoll⟩ := he
      refine ⟨hs.step he, ?_⟩
      cases e with
      | onPacket flow handle now =>
          obtain ⟨hh, he⟩ := he
          have h' := Faithful.onPacket hs h flow now hh
          rwa [he] at h'
      | dispatch now =>
          obtain ⟨q, he⟩ := he
          exact Faithful.dispatch hs h he
      | pollTcp handle sock =>
          obtain ⟨-, rfl⟩ := he
          exact h.congr rfl (Drained.insert_tcp _ _)
      | pollUdp handle sock =>
          obtain ⟨⟨old, ho⟩, rfl⟩ := he
          obtain ⟨hb, hr⟩ := hpoll handle sock old rfl ho
          exact h.congr rfl (Drained.insert_udp ho hb (hr ▸ List.Subset.refl _))
      | mark id =>
          cases he
          exact h.congr rfl (Drained.refl _)
      | egress id act =>
          cases he
          exact h.egress act id
  | deliver src dst data sock =>
      obtain ⟨handle, old, ⟨ho, hbo, hfirst⟩, hb, hr, rfl⟩ := he
      obtain ⟨conn, hc, hleast⟩ := hg
      refine ⟨hs.pollUdp ho, ?_⟩
      -- the first socket bound to `dst` is the flow's own
      have hown : conn.handle = handle := by
        obtain ⟨own, hown⟩ := hs.udp_socket hc
        have hle := hfirst conn.handle own hown ((h _ conn hc).bound_eq own hown)
        obtain ⟨key', conn', hc', rfl⟩ := hs.udpPool.owned handle _ ho trivial
        have hdst : key'.dst = dst := ((h key' conn' hc').bound_eq old ho).symm.trans hbo
        exact le_antisymm (hleast key' conn' hc' hdst) hle
      subst hown
      have hf := h _ conn hc
      refine h.update hs hc rfl hf.learned (hb.trans (hf.bound_eq old ho)) (fun d hd => ?_)
        (Finmap.insert_lookup hc).symm
      rcases hr with hr | hr <;> rw [hr] at hd
      · rcases List.mem_append.mp hd with hd | hd
        · exact hf.waiting old ho d hd
        · rw [List.mem_singleton.mp hd]
      · exact hf.waiting old ho d hd

/-- In a run in which every datagram arrives while the flow of its own source and destination is the
first to that destination, each flow has learned its own source alone, and every pass replies to it
alone. -/
theorem udp_identity {es : List (UdpEvent T U)} {s : Engine T U}
    (h : Run (Guarded OwnFirst UdpStep) (.new T U) es s) {key : FourTuple} {conn : UdpConn}
    (hc : s.mgr.udp.lookup key = some conn) :
    OwnSrc key conn.appSrc ∧ ∀ sock now, s.sockets.lookup conn.handle = some (.udp sock) →
      OwnSrc key (conn.replyTo sock now) := by
  have hi := h.invariant (I := fun s => Sound s.mgr s.sockets ∧ Faithful s.mgr s.sockets)
    (fun _ _ _ hi he => UdpStep.keeps hi he.1 he.2) ⟨Sound.new, nofun⟩
  have hf := hi.2 key conn hc
  exact ⟨hf.learned, fun sock now hs => hf.replyTo hs now⟩

/-! ### Two apps and one server -/

/-- The datagram waits in the first socket of the set. -/
def Engine.delivered (s : Engine SimTcp SimUdp) (sock : SimUdp) : Engine SimTcp SimUdp :=
  ⟨s.mgr, s.sockets.insert 0 (.udp sock)⟩

theorem UdpStep.delivered {s : Engine SimTcp SimUdp} {old : SimUdp} (src : SockAddr) (data : Bytes)
    (h : s.sockets.lookup 0 = some (.udp old)) :
    UdpStep s (.deliver src old.bound data ⟨old.bound, old.rx ++ [(data, src)]⟩)
      (s.delivered ⟨old.bound, old.rx ++ [(data, src)]⟩) :=
  ⟨0, old, ⟨h, rfl, fun _ _ _ _ => Nat.zero_le _⟩, rfl, .inl rfl, rfl⟩

def dnsKey : FourTuple := ⟨dnsQuery.src, dnsQuery.dst⟩

/-- An app asks a name server. -/
def asked : Engine SimTcp SimUdp := (Engine.new SimTcp SimUdp).apply (.onPacket dnsQuery 0 0)

theorem asked_sound : Sound asked.mgr asked.sockets :=
  Sound.new.step (ConnStep.of_enabled Sound.new (by decide +kernel) :
    ConnStep _ (.onPacket dnsQuery 0 0) _)

theorem asked_socket : asked.sockets.lookup 0 = some (.udp ⟨dnsQuery.dst, []⟩) := by
  decide +kernel

def query : SimUdp := ⟨dnsQuery.dst, [([1], dnsQuery.src)]⟩

def oneApp : List (UdpEvent SimTcp SimUdp) :=
  [.engine (.onPacket dnsQuery 0 0), .deliver dnsQuery.src dnsQuery.dst [1] query,
    .engine (.dispatch 1)]

theorem udp_identity_oneApp : ∃ s conn,
    Run (Guarded OwnFirst UdpStep) (.new SimTcp SimUdp) oneApp s ∧
      s.mgr.udp.lookup dnsKey = some conn ∧ conn.appSrc = some dnsQuery.src ∧
      OwnSrc dnsKey conn.appSrc := by
  have hown : OwnFirst asked (.deliver dnsQuery.src dnsQuery.dst [1] query) := by
    refine ⟨⟨0, .new, .new, none, 0, UDP_IDLE⟩, by decide +kernel, fun _ _ _ _ => Nat.zero_le _⟩
  have hr : Run (Guarded OwnFirst UdpStep) (.new SimTcp SimUdp) oneApp
      ((asked.delivered query).apply (.dispatch 1)) :=
    .more ⟨⟨ConnStep.of_enabled Sound.new (by decide +kernel), nofun⟩, trivial⟩ <|
    .more ⟨.delivered dnsQuery.src [1] asked_socket, hown⟩ <|
    .one ⟨⟨ConnStep.of_enabled (asked_sound.pollUdp asked_socket) rfl, nofun⟩, trivial⟩
  have hv : (((asked.delivered query).apply (.dispatch 1)).mgr.udp.lookup dnsKey).map (·.appSrc) =
      some (some dnsQuery.src) := by decide +kernel
  obtain ⟨conn, hc, ha⟩ := Option.map_eq_some_iff.mp hv
  exact ⟨_, conn, hr, hc, ha, (udp_identity hr hc).1⟩

/-- A second app, of another local port, asks the same server. -/
def otherQuery : Flow := { dnsQuery with src := ⟨⟨10, 0, 0, 2⟩, 40002⟩ }

def twoApps : List (UdpEvent SimTcp SimUdp) :=
  [.engine (.onPacket dnsQuery 0 0), .engine (.onPacket otherQuery 1 0),
    .deliver otherQuery.src dnsQuery.dst [2] ⟨dnsQuery.dst, [([2], otherQuery.src)]⟩,
    .engine (.dispatch 1)]

/-- The second app's datagram goes to the first app's flow, which replies to the second from then
on. -/
theorem second_app_takes_replies : ∃ s conn, Run UdpStep (.new SimTcp SimUdp) twoApps s ∧
    s.mgr.udp.lookup dnsKey = some conn ∧ ¬ OwnSrc dnsKey conn.appSrc := by
  have hs₁ : ConnStep asked (.onPacket otherQuery 1 0) (asked.apply (.onPacket otherQuery 1 0)) :=
    ConnStep.of_enabled asked_sound (by decide +kernel)
  have hsock : (asked.apply (.onPacket otherQuery 1 0)).sockets.lookup 0 =
      some (.udp ⟨dnsQuery.dst, []⟩) := by decide +kernel
  have hr : Run UdpStep (.new SimTcp SimUdp) twoApps
      (((asked.apply (.onPacket otherQuery 1 0)).delivered
        ⟨dnsQuery.dst, [([2], otherQuery.src)]⟩).apply (.dispatch 1)) :=
    .more ⟨ConnStep.of_enabled Sound.new (by decide +kernel), nofun⟩ <|
    .more ⟨hs₁, nofun⟩ <|
    .more (.delivered otherQuery.src [2] hsock) <|
    .one ⟨ConnStep.of_enabled ((asked_sound.step hs₁).pollUdp hsock) rfl, nofun⟩
  have hv : ((((asked.apply (.onPacket otherQuery 1 0)).delivered
      ⟨dnsQuery.dst, [([2], otherQuery.src)]⟩).apply (.dispatch 1)).mgr.udp.lookup dnsKey).map
        (·.appSrc) = some (some otherQuery.src) := by decide +kernel
  obtain ⟨conn, hc, ha⟩ := Option.map_eq_some_iff.mp hv
  refine ⟨_, conn, hr, hc, ?_⟩
  rw [ha]
  unfold OwnSrc
  decide

end Tunnel.Conn
