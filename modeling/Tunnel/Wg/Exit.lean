import Tunnel.Support.Relayed
import Tunnel.Support.Runs
import Tunnel.Wg.Driver
import Tunnel.Wg.Fragments
import Tunnel.Wg.Frame

/-!
# Wg — What passes the exit

The driver between the TUN and the peer, over whole runs: every packet that is encapsulated is the
translation of a packet read from the TUN, and every packet delivered to the TUN is the translation
of one that was decapsulated, in order.

* `knows_translateOut`, `knows_translateIn`, …: whom the NAT may deliver to, call by call.
* `Driver.Inv`: the invariant.  `Inv.carry`, `Inv.accept`, `Inv.deliver`: its preservation by the
  parts of a turn.
* `exit_outbound`, `exit_inbound`: the two directions.
-/

namespace Tunnel.Wg
open Support
open Inspect (Direction)

/-! ### Whom the NAT may deliver to -/

namespace Nat44

variable {nat nat' : Nat44} {host : Ipv4Addr}

/-- Fewer bindings, the same fragments and the same forward. -/
theorem Knows.mono (h : nat'.Knows host)
    (hr : ∀ k b, nat'.rev.lookup k = some b → ∃ k b', nat.rev.lookup k = some b' ∧ b'.src = b.src)
    (hg : ∀ k e, nat'.frag.lookup k = some e → nat.frag.lookup k = some e)
    (hf : nat'.forward = nat.forward) : nat.Knows host := by
  rcases h with ⟨k, b, hb, rfl⟩ | ⟨k, t, ht⟩ | ⟨f, hf', rfl⟩
  · obtain ⟨k, b', hb', hs⟩ := hr k b hb
    exact .inl ⟨k, b', hb', hs⟩
  · exact .inr (.inl ⟨k, t, hg k _ ht⟩)
  · exact .inr (.inr ⟨f, hf ▸ hf', rfl⟩)

theorem knows_refresh {k : RevKey} {now : Instant} (h : (nat.refresh k now).Knows host) :
    nat.Knows host := by
  refine h.mono (fun j b hb => ?_) (fun j e he => by rwa [refresh_frag] at he)
    (refresh_forward _ _ _)
  obtain ⟨b', hb', hkey, -⟩ := lookup_refresh_some hb
  exact ⟨j, b', hb', (congrArg FwdKey.src hkey).symm⟩

theorem knows_closeIf {rst : Bool} {k : RevKey} (h : (nat.closeIf rst k).Knows host) :
    nat.Knows host := by
  refine h.mono (fun j b hb => ⟨j, b, lookup_closeIf_some hb, rfl⟩)
    (fun j e he => by rwa [closeIf_frag] at he) ?_
  unfold closeIf
  split
  · exact close_forward _ _ _
  · rfl

theorem knows_noteFrag {pkt : Bytes} {h₀ : Ipv4Addr} {now : Instant}
    (h : (nat.noteFrag pkt h₀ now).Knows host) (h₀' : nat.Knows h₀) : nat.Knows host := by
  unfold noteFrag at h
  split at h
  swap
  · exact h
  rcases h with h | ⟨k, t, ht⟩ | h
  · exact .inl h
  · simp only [Finmap.lookup_insert_eq] at ht
    split at ht
    · cases ht
      exact h₀'
    · exact .inr (.inl ⟨k, t, ht⟩)
  · exact .inr (.inr h)

/-- An outbound packet makes its sender known, and no one else. -/
theorem knows_translateOut {pkt pkt' : Bytes} {now : Instant} {v : Verdict} (hi : nat.Inv)
    (e : nat.translateOut pkt now = .ok (v, nat', pkt')) (h : nat'.Knows host) :
    nat.Knows host ∨ host = addr pkt 12 := by
  have hbind : ∀ key, (nat.bind key now).2.Knows host → nat.Knows host ∨ host = key.src := by
    intro key hk
    rcases nat.bind_cases key now hi.cursor_ge with ⟨p, -, e⟩ | ⟨cursor, -, -, e⟩ |
        ⟨p, cursor, -, -, -, -, -, -, e⟩ <;> rw [e] at hk
    · exact .inl hk
    · exact .inl hk
    · rcases hk with ⟨k, b, hb, rfl⟩ | hk
      · simp only [Finmap.lookup_insert_eq] at hb
        split at hb
        · cases hb
          exact .inr rfl
        · exact .inl (.inl ⟨k, b, hb, rfl⟩)
      · exact .inl (.inr hk)
  have hsrc : ∀ key, nat.outClass pkt = .keyed key → key.src = addr pkt 12 := fun key hc =>
    (outTuple_eq_some.mp (outClass_keyed_iff.mp hc).1).2.2.2.1
  rcases translateOut_cases e with ⟨-, rfl⟩ | ⟨key, hc, hn, -⟩ | ⟨key, p, nat₁, hc, hn, -, -, rfl⟩
  · exact .inl h
  · rw [← hsrc key hc]
    exact hbind key (by rwa [hn])
  · rw [← hsrc key hc]
    exact hbind key (by rw [hn]; exact knows_refresh (knows_closeIf h))

/-- An inbound packet makes no one known. -/
theorem knows_translateIn {pkt pkt' : Bytes} {now : Instant} {v : Verdict}
    (e : nat.translateIn pkt now = .ok (v, nat', pkt')) (h : nat'.Knows host) :
    nat.Knows host := by
  rw [translateIn_eq] at e
  cases hc : nat.inClass pkt with
  | drop => rw [hc] at e; cases e; exact h
  | fragment orig => rw [hc] at e; cases e; exact h
  | icmpError =>
      obtain ⟨hok, hl⟩ := inClass_icmpError hc
      rw [hc] at e
      dsimp only at e
      rw [translateIcmpError_eq nat now hok hl] at e
      cases hq : nat.quoted pkt with
      | none => rw [hq] at e; cases e; exact h
      | some k =>
          rw [hq] at e
          dsimp only at e
          have hn' : nat' = (nat.resolveQuote k.proto k.port now).2 := by
            rcases hn : nat.resolveQuote k.proto k.port now with ⟨_ | ⟨dst, port⟩, nat₁⟩ <;>
              rw [hn] at e <;> cases e <;> rfl
          rcases nat.resolveQuote_cases k now with hr | ⟨b, -, -, hr⟩
          · rwa [hn', hr] at h
          · rw [hn', hr] at h
            exact knows_refresh h
  | forwarded f =>
      rw [hc] at e
      cases e
      obtain ⟨-, -, hf⟩ := inClass_forwarded hc
      have hk : (nat.noteFrag pkt f.host now).Knows host := h
      exact knows_noteFrag hk (.inr (.inr ⟨f, hf, rfl⟩))
  | keyed k =>
      rw [hc] at e
      dsimp only at e
      cases hb : nat.rev.lookup k with
      | none => rw [hb] at e; cases e; exact h
      | some b =>
          rw [hb] at e
          cases e
          refine knows_refresh (knows_noteFrag (knows_closeIf h) ?_)
          exact .inl ⟨k, { b with last := now }, by rw [lookup_refresh, if_pos rfl, hb]; rfl, rfl⟩

/-- A sweep makes no one known. -/
theorem knows_expire {now : Instant} (h : (nat.expire now).2.Knows host) : nat.Knows host := by
  refine h.mono (fun k b hb => ⟨k, b, ?_, rfl⟩) (fun k e he => ?_) rfl
  · rw [lookup_expire_rev, Option.filter_eq_some_iff] at hb
    exact hb.1
  · have he' : (nat.frag.retain fun _ seen => durationSince now seen.2 < FRAG_IDLE).lookup k =
        some e := he
    rw [Finmap.lookup_retain, Option.filter_eq_some_iff] at he'
    exact he'.1

theorem knows_setForward {h₀ : Ipv4Addr} {port : UInt16} (h : (nat.setForward h₀ port).Knows host) :
    nat.Knows host ∨ host = h₀ := by
  rcases h with h | h | ⟨f, hf, rfl⟩
  · exact .inl (.inl h)
  · exact .inl (.inr (.inl h))
  · cases hf
    exact .inr rfl

theorem knows_clearForward (h : nat.clearForward.Knows host) : nat.Knows host := by
  rcases h with h | h | ⟨f, hf, -⟩
  · exact .inl h
  · exact .inr (.inl h)
  · cases hf

end Nat44

/-! ### What passes the driver -/

/-- An outbound packet and its translation: it leaves from the client address. -/
def Outgoing (wg : Ipv4Addr) (pkt pkt' : Bytes) : Prop :=
  HdrOk pkt ∧ routable (addr pkt 16) = true ∧ addr pkt' 12 = wg ∧ Framed (outBytes pkt) pkt pkt'

/-- An inbound packet and its translation: it came for the client address. -/
def Incoming (wg : Ipv4Addr) (pkt pkt' : Bytes) : Prop :=
  HdrOk pkt ∧ addr pkt 16 = wg ∧ Framed (inBytes pkt) pkt pkt'

/-- Someone sent a packet from `host` before, or the forwarded port is `host`'s. -/
def Heard (config : WgConfig) (recorded : List (Direction × Bytes)) (host : Ipv4Addr) : Prop :=
  (∃ pkt, (Direction.up, pkt) ∈ recorded ∧ addr pkt 12 = host) ∨
    ∃ plan, config.forward = some plan ∧ plan.host = host

theorem Heard.append {config : WgConfig} {recorded : List (Direction × Bytes)} {host : Ipv4Addr}
    (h : Heard config recorded host) (more : List (Direction × Bytes)) :
    Heard config (recorded ++ more) host :=
  h.imp_left fun ⟨pkt, hm, ha⟩ => ⟨pkt, List.mem_append_left _ hm, ha⟩

/-- Each packet shown on its way to the host goes to someone heard before it. -/
def Solicited (config : WgConfig) (recorded : List (Direction × Bytes)) : Prop :=
  ∀ before pkt after, recorded = before ++ (Direction.down, pkt) :: after →
    Heard config before (addr pkt 16)

theorem Solicited.append {config : WgConfig} {recorded : List (Direction × Bytes)}
    (h : Solicited config recorded) {dir : Direction} {pkt : Bytes}
    (hp : dir = .down → Heard config recorded (addr pkt 16)) :
    Solicited config (recorded ++ [(dir, pkt)]) := by
  intro before q after e
  rcases List.append_eq_append_iff.mp e with ⟨l, rfl, he⟩ | ⟨l, rfl, he⟩
  · cases l with
    | nil =>
        cases he
        rw [List.append_nil]
        exact hp rfl
    | cons x l =>
        rw [List.cons_append, List.cons.injEq] at he
        exact absurd he.2.symm (by simp)
  · cases l with
    | nil =>
        cases he
        rw [List.append_nil] at hp
        exact hp rfl
    | cons x l =>
        cases he
        exact h before q l rfl

/-- The packets shown to the monitor in one direction. -/
def shown (dir : Direction) (recorded : List (Direction × Bytes)) : List Bytes :=
  recorded.filterMap fun e => if e.1 = dir then some e.2 else none

@[simp] theorem shown_append (dir dir' : Direction) (recorded : List (Direction × Bytes))
    (pkt : Bytes) : shown dir (recorded ++ [(dir', pkt)]) =
      shown dir recorded ++ if dir' = dir then [pkt] else [] := by
  unfold shown
  rw [List.filterMap_append]
  split <;> simp [*]

/-- The bytes that a list of packets holds. -/
def total (pkts : List Bytes) : ℕ := (pkts.map List.length).sum

@[simp] theorem total_append (pkts : List Bytes) (pkt : Bytes) :
    total (pkts ++ [pkt]) = total pkts + pkt.length := by
  simp [total]

/-- The encapsulated packets of which a datagram came. -/
def counted (encapsulated : List (Bytes × Option Bytes)) : List Bytes :=
  (encapsulated.filter fun e => e.2.isSome).map Prod.fst

@[simp] theorem counted_append (encapsulated : List (Bytes × Option Bytes)) (pkt : Bytes)
    (out : Option Bytes) : counted (encapsulated ++ [(pkt, out)]) =
      counted encapsulated ++ if out.isSome then [pkt] else [] := by
  unfold counted
  rw [List.filter_append, List.map_append]
  cases out <;> rfl

/-! ### What is published of the forward -/

/-- What a report publishes. -/
def published : Portmap.Event → State.Forward
  | .mapped port => .opened port
  | .pending reason => .requesting reason
  | .lost reason => .failed reason

/-- The port that a published state says is open. -/
def openPort : State.Forward → Option UInt16
  | .opened port => some port
  | _ => none

/-- What is published before the first report. -/
def WgConfig.initial (config : WgConfig) : Option State.Forward :=
  match config.forward with
  | some (.fixed _ port) => some (.opened port)
  | _ => none

/-- The forward that a published state stands for. -/
def WgConfig.forwardOf (config : WgConfig) (st : Option State.Forward) : Option Forward :=
  (st.bind openPort).bind fun port => config.forward.map fun plan => ⟨plan.host, port⟩

/-- The report an arm reads. -/
def Arm.report : Arm → Option Portmap.Event
  | .event ev => some ev
  | _ => none

/-- What is published after this report, if there is one. -/
def publishedAfter (st : Option State.Forward) (report : Option Portmap.Event) :
    Option State.Forward :=
  (report.map published).or st

namespace Driver

variable {τ : Type}

/-- The driver's invariant, with `st` published.  With the loop left, one packet shown may be
undelivered. -/
structure Inv (config : WgConfig) (st : Option State.Forward) (going : Bool) (d : Driver τ) :
    Prop where
  nat : NatReachable config.address d.nat
  outward : Relayed (Outgoing config.address) (shown .up d.recorded)
    (d.encapsulated.map Prod.fst)
  inward : Relayed (Incoming config.address) d.decapsulated (shown .down d.recorded)
  solicited : Solicited config d.recorded
  known : ∀ host, d.nat.Knows host → Heard config d.recorded host
  delivered : ∃ lost, shown .down d.recorded = d.delivered ++ lost ∧
    lost.length ≤ if going then 0 else 1
  written : d.stats.written = .ofNat (total (counted d.encapsulated))
  read : d.stats.read = .ofNat (total d.decapsulated)
  status : d.status.forward = st
  forward : d.nat.forward = config.forwardOf st

variable {config : WgConfig} {st : Option State.Forward} {d : Driver τ} {T : Tunn τ}

namespace Inv

/-- Fields of which the invariant says nothing. -/
theorem congr {going : Bool} {d' : Driver τ} (h : d.Inv config st going) (hn : d'.nat = d.nat)
    (hr : d'.recorded = d.recorded) (he : d'.encapsulated = d.encapsulated)
    (hc : d'.decapsulated = d.decapsulated) (hd : d'.delivered = d.delivered)
    (hs : d'.stats = d.stats) (ht : d'.status = d.status) : d'.Inv config st going := by
  refine ⟨?_, ?_, ?_, ?_, ?_, ?_, ?_, ?_, ?_, ?_⟩
  · rw [hn]; exact h.nat
  · rw [hr, he]; exact h.outward
  · rw [hr, hc]; exact h.inward
  · rw [hr]; exact h.solicited
  · rw [hn, hr]; exact h.known
  · rw [hr, hd]; exact h.delivered
  · rw [hs, he]; exact h.written
  · rw [hs, hc]; exact h.read
  · rw [ht]; exact h.status
  · rw [hn]; exact h.forward

/-- Leaving the loop. -/
theorem leave {going : Bool} (h : d.Inv config st true) : d.Inv config st going := by
  obtain ⟨lost, e, hl⟩ := h.delivered
  exact ⟨h.nat, h.outward, h.inward, h.solicited, h.known,
    ⟨lost, e, hl.trans (Nat.zero_le _)⟩, h.written, h.read, h.status, h.forward⟩

/-- A packet read from the TUN, and shown to the NAT. -/
theorem readUp (h : d.Inv config st true) {pkt pkt' : Bytes} {now : Instant} {v : Verdict}
    {nat' : Nat44} (e : d.nat.translateOut pkt now = .ok (v, nat', pkt')) :
    Inv config st true { d with nat := nat', recorded := d.recorded ++ [(.up, pkt)] } where
  nat := by
    have hs : NatStep d.nat (.translateOut pkt now) nat' := ⟨some (v, pkt'), by
      rw [Nat44.call, e]; rfl⟩
    exact h.nat.run (.one hs)
  outward := by
    rw [shown_append, if_pos rfl]
    exact h.outward.drop pkt
  inward := by simpa using h.inward
  solicited := h.solicited.append nofun
  known host hk := by
    rcases Nat44.knows_translateOut h.nat.inv e hk with hk | rfl
    · exact (h.known host hk).append _
    · exact .inl ⟨pkt, List.mem_append_right _ (List.mem_singleton_self _), rfl⟩
  delivered := by simpa using h.delivered
  written := h.written
  read := h.read
  status := h.status
  forward := by
    have hs : NatStep d.nat (.translateOut pkt now) nat' := ⟨some (v, pkt'), by
      rw [Nat44.call, e]; rfl⟩
    exact (Nat44.call_grows h.nat.inv rfl hs).forward.trans h.forward

/-- What an outbound translation returns is its packet's. -/
theorem outgoing (h : d.Inv config st true) {pkt pkt' : Bytes} {now : Instant} {nat' : Nat44}
    (e : d.nat.translateOut pkt now = .ok (.translate, nat', pkt')) :
    Outgoing config.address pkt pkt' := by
  obtain ⟨v, nat₁, pkt₁, e', -, htr⟩ := h.nat.inv.translateOut_framed pkt now
  rw [e] at e'
  cases e'
  obtain ⟨hok, hsrc, hframe⟩ := htr rfl
  have hc : d.nat.outClass pkt ≠ .drop := by
    intro hc
    rw [Nat44.translateOut_eq, hc] at e
    cases e
  exact ⟨hok, (Nat44.outClass_addr hc).2.1, hsrc.trans h.nat.wgAddr_eq, hframe⟩

/-- A packet read from the TUN, translated and encapsulated. -/
theorem encapsulate (h : d.Inv config st true) {pkt pkt' : Bytes} {now : Instant} {nat' : Nat44}
    (e : d.nat.translateOut pkt now = .ok (.translate, nat', pkt')) (tunn : τ)
    (out : Option Bytes) :
    Inv config st true { d with
      nat := nat'
      recorded := d.recorded ++ [(.up, pkt)]
      tunn
      encapsulated := d.encapsulated ++ [(pkt', out)]
      stats := if out.isSome then d.stats.addWritten pkt'.length else d.stats } := by
  have hr := h.readUp e
  refine ⟨hr.nat, ?_, hr.inward, hr.solicited, hr.known, hr.delivered, ?_, ?_, hr.status,
    hr.forward⟩
  · rw [shown_append, if_pos rfl, List.map_append]
    exact h.outward.pass (h.outgoing e)
  · cases out with
    | none => simpa using h.written
    | some out => simp [State.ExitStats.addWritten, h.written]
  · cases out with
    | none => exact h.read
    | some out => exact h.read

theorem carry (h : d.Inv config st true) (o : Outbound) :
    ∃ going d', d.carry T o = .ok (going, d') ∧ d'.Inv config st going := by
  obtain ⟨v, nat', pkt', e, -, -⟩ := h.nat.inv.translateOut_framed o.pkt o.now
  rw [Driver.carry]
  dsimp only
  rw [e, ok_bind]
  dsimp only
  cases v with
  | drop => exact ⟨true, _, rfl, h.readUp e⟩
  | exhausted => exact ⟨true, _, rfl, (h.readUp e).congr rfl rfl rfl rfl rfl rfl rfl⟩
  | translate =>
      rcases T.encapsulate d.tunn pkt' with ⟨res, tunn⟩
      cases res with
      | writeToNetwork out =>
          have hs := h.encapsulate e tunn (some out)
          dsimp only
          split
          · exact ⟨true, _, rfl, hs.congr rfl rfl rfl rfl rfl rfl rfl⟩
          · exact ⟨false, _, rfl, hs.leave⟩
      | done => exact ⟨true, _, rfl, h.encapsulate e tunn none⟩
      | err => exact ⟨true, _, rfl, h.encapsulate e tunn none⟩
      | writeToTunnelV4 _ => exact ⟨true, _, rfl, h.encapsulate e tunn none⟩
      | writeToTunnelV6 _ => exact ⟨true, _, rfl, h.encapsulate e tunn none⟩

theorem burst (h : d.Inv config st true) (os : List Outbound) :
    ∃ going d', Driver.burst T os d = .ok (going, d') ∧ d'.Inv config st going := by
  induction os generalizing d with
  | nil => exact ⟨true, d, rfl, h⟩
  | cons o os ih =>
      obtain ⟨going, d₁, e, h₁⟩ := h.carry (T := T) o
      rw [Driver.burst, e, ok_bind]
      cases going with
      | true => exact ih h₁
      | false => exact ⟨false, d₁, rfl, h₁⟩

/-! ### Peer to host -/

/-- What an inbound translation returns is its packet's, and goes to someone known. -/
theorem incoming (h : d.Inv config st true) {pkt pkt' : Bytes} {now : Instant} {nat' : Nat44}
    (e : d.nat.translateIn pkt now = .ok (.translate, nat', pkt')) :
    Incoming config.address pkt pkt' ∧ d.nat.Knows (addr pkt' 16) := by
  obtain ⟨v, nat₁, pkt₁, e', -, htr⟩ := d.nat.translateIn_framed pkt now
  rw [e] at e'
  cases e'
  obtain ⟨hok, hknown, hframe⟩ := htr rfl
  have hc : d.nat.inClass pkt ≠ .drop := by
    intro hc
    rw [Nat44.translateIn_eq, hc] at e
    cases e
  exact ⟨⟨hok, (Nat44.inClass_hdrOk hc).2.trans h.nat.wgAddr_eq, hframe⟩, hknown⟩

/-- A packet decapsulated, and shown to the NAT. -/
theorem readDown (h : d.Inv config st true) {pkt pkt' : Bytes} {now : Instant} {v : Verdict}
    {nat' : Nat44} (e : d.nat.translateIn pkt now = .ok (v, nat', pkt')) :
    Inv config st true { d with
      nat := nat'
      decapsulated := d.decapsulated ++ [pkt]
      stats := d.stats.addRead pkt.length } where
  nat := by
    have hs : NatStep d.nat (.translateIn pkt now) nat' := ⟨some (v, pkt'), by
      rw [Nat44.call, e]; rfl⟩
    exact h.nat.run (.one hs)
  outward := h.outward
  inward := h.inward.drop pkt
  solicited := h.solicited
  known host hk := h.known host (Nat44.knows_translateIn e hk)
  delivered := h.delivered
  written := h.written
  read := by simp [State.ExitStats.addRead, h.read]
  status := h.status
  forward := by
    have hs : NatStep d.nat (.translateIn pkt now) nat' := ⟨some (v, pkt'), by
      rw [Nat44.call, e]; rfl⟩
    exact (Nat44.call_grows h.nat.inv rfl hs).forward.trans h.forward

/-- A packet decapsulated, translated and shown, which the TUN writer may take. -/
theorem handOn (h : d.Inv config st true) {pkt pkt' : Bytes} {now : Instant} {nat' : Nat44}
    (e : d.nat.translateIn pkt now = .ok (.translate, nat', pkt')) (taken : Bool) :
    Inv config st taken { d with
      nat := nat'
      decapsulated := d.decapsulated ++ [pkt]
      stats := d.stats.addRead pkt.length
      recorded := d.recorded ++ [(.down, pkt')]
      delivered := if taken then d.delivered ++ [pkt'] else d.delivered } := by
  have hr := h.readDown e
  obtain ⟨hin, hknown⟩ := h.incoming e
  refine ⟨hr.nat, ?_, ?_, ?_, fun host hk => (hr.known host hk).append _, ?_, h.written, hr.read,
    hr.status, hr.forward⟩
  · simpa using h.outward
  · rw [shown_append, if_pos rfl]
    exact h.inward.pass hin
  · exact h.solicited.append fun _ => h.known _ hknown
  · obtain ⟨lost, hd, hl⟩ := h.delivered
    have hnil : lost = [] := List.length_eq_zero_iff.mp (Nat.le_zero.mp hl)
    rw [hnil, List.append_nil] at hd
    rw [shown_append, if_pos rfl, hd]
    cases taken with
    | true => exact ⟨[], by simp, by simp⟩
    | false => exact ⟨[pkt'], rfl, by simp⟩

theorem accept (h : d.Inv config st true) (pkt : Bytes) (r : Round) :
    ∃ going d', d.accept pkt r = .ok (going, d') ∧ d'.Inv config st going := by
  obtain ⟨v, nat', pkt', e, -, -⟩ := d.nat.translateIn_framed pkt r.now
  rw [Driver.accept]
  dsimp only
  rw [e, ok_bind]
  dsimp only
  split
  · next hv =>
      subst hv
      have hs := h.handOn e r.taken
      cases ht : r.taken with
      | true =>
          rw [ht] at hs
          exact ⟨true, _, rfl, hs⟩
      | false =>
          rw [ht] at hs
          exact ⟨false, _, rfl, hs⟩
  · exact ⟨true, _, rfl, h.readDown e⟩

/-- A delivery ends, or goes on for more rounds than there are. -/
theorem deliver (h : d.Inv config st true) (rs : List Round) (input : Bytes) :
    d.deliver T rs input = .error .outOfFuel ∨
      ∃ going d', d.deliver T rs input = .ok (going, d') ∧ d'.Inv config st going := by
  induction rs generalizing d input with
  | nil => exact .inl rfl
  | cons r rs ih =>
      rw [Driver.deliver]
      rcases T.decapsulate d.tunn input with ⟨res, tunn⟩
      have h₁ : Inv config st true { d with tunn } := h.congr rfl rfl rfl rfl rfl rfl rfl
      cases res with
      | done => exact .inr ⟨true, _, rfl, h₁⟩
      | err => exact .inr ⟨true, _, rfl, h₁⟩
      | writeToTunnelV6 _ => exact ih h₁ []
      | writeToNetwork out =>
          have h₂ : Inv config st true { d with tunn, sent := d.sent ++ [out] } :=
            h.congr rfl rfl rfl rfl rfl rfl rfl
          dsimp only
          split
          · exact ih h₂ []
          · exact .inr ⟨false, _, rfl, h₁.leave⟩
      | writeToTunnelV4 pkt =>
          obtain ⟨going, d₂, e, h₂⟩ := h₁.accept pkt r
          dsimp only
          rw [e, ok_bind]
          cases going with
          | true => exact ih h₂ []
          | false => exact .inr ⟨false, d₂, rfl, h₂⟩

theorem receive (h : d.Inv config st true) (ds : List (Bytes × List Round)) :
    Driver.receive T ds d = .error .outOfFuel ∨
      ∃ going d', Driver.receive T ds d = .ok (going, d') ∧ d'.Inv config st going := by
  induction ds generalizing d with
  | nil => exact .inr ⟨true, d, rfl, h⟩
  | cons p ds ih =>
      obtain ⟨datagram, rounds⟩ := p
      rw [Driver.receive]
      rcases h.deliver (T := T) rounds datagram with e | ⟨going, d₁, e, h₁⟩
      · exact .inl (by rw [e]; rfl)
      · rw [e, ok_bind]
        cases going with
        | true => exact ih h₁
        | false => exact .inr ⟨false, d₁, rfl, h₁⟩

/-! ### The other arms -/

/-- A call on the NAT that makes no one known but those heard. -/
theorem call {st' : Option State.Forward} (h : d.Inv config st true) (op : NatOp) {nat' : Nat44}
    (e : NatStep d.nat op nat')
    (hk : ∀ host, nat'.Knows host → d.nat.Knows host ∨ Heard config d.recorded host)
    {status : State.Status} (hst : status.forward = st') (hf : nat'.forward = config.forwardOf st') :
    Inv config st' true { d with nat := nat', status } where
  nat := h.nat.run (.one e)
  outward := h.outward
  inward := h.inward
  solicited := h.solicited
  known host hn := (hk host hn).elim (h.known host) id
  delivered := h.delivered
  written := h.written
  read := h.read
  status := hst
  forward := hf

theorem setForward (h : d.Inv config st true) {plan : ForwardPlan}
    (hp : config.forward = some plan) (port : UInt16) :
    Inv config (some (.opened port)) true { d with
      nat := d.nat.setForward plan.host port
      status := { d.status with forward := some (.opened port) } } := by
  refine h.call (.setForward plan.host port) ⟨none, rfl⟩ (fun host hk => ?_) rfl ?_
  · rcases Nat44.knows_setForward hk with hk | rfl
    · exact .inl hk
    · exact .inr (.inr ⟨plan, hp, rfl⟩)
  · rw [WgConfig.forwardOf, hp]
    rfl

theorem clearForward (h : d.Inv config st true) {st' : State.Forward} (hc : openPort st' = none) :
    Inv config (some st') true { d with
      nat := d.nat.clearForward
      status := { d.status with forward := some st' } } := by
  refine h.call .clearForward ⟨none, rfl⟩
    (fun _ hk => .inl (Nat44.knows_clearForward hk)) rfl ?_
  rw [WgConfig.forwardOf, Option.bind_some, hc]
  rfl

/-- A report is for the host of the plan. -/
theorem follow (h : d.Inv config st true) {plan : ForwardPlan} (hp : config.forward = some plan)
    (ev : Portmap.Event) : (d.follow plan.host ev).Inv config (some (published ev)) true := by
  cases ev with
  | mapped port => exact h.setForward hp port
  | pending reason => exact h.clearForward rfl
  | lost reason => exact h.clearForward rfl

theorem housekeeping (h : d.Inv config st true) (now : Instant) :
    (d.housekeeping config now).Inv config st true := by
  have hc : ∀ status : State.Status, status.forward = d.status.forward →
      Inv config st true { d with nat := (d.nat.expire now).2, status } := fun status hs =>
    h.call (.expire now) ⟨none, rfl⟩ (fun _ hk => .inl (Nat44.knows_expire hk))
      (hs.trans h.status) h.forward
  unfold Driver.housekeeping
  dsimp only
  split
  · exact hc _ rfl
  · exact hc d.status rfl

theorem start (config : WgConfig) (tunn : τ) :
    (Driver.start config tunn).Inv config config.initial true := by
  have h : (Driver.new config.address tunn).Inv config none true := {
    nat := Reachable.of_start rfl
    outward := .nil
    inward := .nil
    solicited := fun before pkt after e => absurd e.symm (by simp [Driver.new])
    known := fun host hk => by
      rcases hk with ⟨k, b, hb, -⟩ | ⟨k, t, ht⟩ | ⟨f, hf, -⟩
      · cases hb
      · cases ht
      · cases hf
    delivered := ⟨[], rfl, Nat.le_refl 0⟩
    written := rfl
    read := rfl
    status := rfl
    forward := rfl }
  unfold Driver.start WgConfig.initial
  dsimp only
  cases hp : config.forward with
  | none => exact h
  | some plan =>
      cases plan with
      | fixed host port => exact h.setForward hp port
      | leased host gateway => exact h

/-! ### The loop -/

/-- No arm does worse than to outlast the rounds it was given. -/
theorem serve (h : d.Inv config st true) {arm : Arm} (ha : arm.Enabled config) :
    d.serve T config arm = .error .outOfFuel ∨
      ∃ going d', d.serve T config arm = .ok (going, d') ∧
        d'.Inv config (publishedAfter st arm.report) going := by
  cases arm with
  | leave => exact .inr ⟨false, d, rfl, h.leave⟩
  | burst first rest => exact .inr (h.burst (first :: rest))
  | receive first rest => exact h.receive (first :: rest)
  | receiveFailed => exact .inr ⟨true, d, rfl, h⟩
  | timer taken =>
      refine .inr ⟨true, _, rfl, ?_⟩
      unfold Driver.updateTimers
      split <;> exact h.congr rfl rfl rfl rfl rfl rfl rfl
  | event ev =>
      obtain ⟨plan, hp⟩ := Option.isSome_iff_exists.mp ha
      unfold Driver.serve
      dsimp only
      rw [hp]
      exact .inr ⟨true, _, rfl, h.follow hp ev⟩
  | housekeeping now => exact .inr ⟨true, _, rfl, h.housekeeping now⟩

theorem turn (h : d.Inv config st true) (hs : d.stopped = false) {t : Turn}
    (ht : t.arm.Enabled config) : d.turn T config t = .error .outOfFuel ∨
      ∃ d', d.turn T config t = .ok d' ∧
        d'.Inv config (publishedAfter st t.arm.report) !d'.stopped := by
  obtain ⟨arm, shutdown⟩ := t
  unfold Driver.turn
  rcases h.serve (T := T) ht with e | ⟨going, d₁, e, h₁⟩
  · exact .inl (by dsimp only at e ⊢; rw [e]; rfl)
  refine .inr ?_
  dsimp only at e h₁ ⊢
  rw [e, ok_bind]
  have hend : ∃ d', (pure { d₁ with stopped := !going || shutdown } : Checked (Driver τ)) = .ok d' ∧
      d'.Inv config (publishedAfter st arm.report) !d'.stopped := by
    refine ⟨_, rfl, ?_⟩
    cases going with
    | false => exact h₁.congr rfl rfl rfl rfl rfl rfl rfl
    | true => exact h₁.leave.congr rfl rfl rfl rfl rfl rfl rfl
  cases arm with
  | receiveFailed =>
      cases e
      exact ⟨d, rfl, by rw [hs]; exact h⟩
  | _ => exact hend

theorem step {d' : Driver τ} {t : Turn} (h : d.Inv config st !d.stopped)
    (hs : DriverStep T config d t d') :
    d'.Inv config (publishedAfter st t.arm.report) !d'.stopped := by
  obtain ⟨hstop, ht, e⟩ := hs
  rw [hstop] at h
  rcases h.turn hstop ht with e' | ⟨d₁, e', h₁⟩ <;> rw [e] at e' <;> cases e'
  exact h₁

end Inv

theorem start_stopped (config : WgConfig) (tunn : τ) :
    (start config tunn).stopped = false := by
  unfold start
  dsimp only
  split <;> rfl

end Driver

/-! ### Runs -/

/-- The states the driver reaches, whatever the session it is given. -/
def DriverReachable {τ : Type} (T : Tunn τ) (config : WgConfig) : Driver τ → Prop :=
  Reachable (fun d => ∃ tunn, d = .start config tunn) (DriverStep T config)

variable {τ : Type} {T : Tunn τ} {config : WgConfig} {d : Driver τ}

theorem DriverReachable.inv (h : DriverReachable T config d) :
    ∃ st, d.Inv config st !d.stopped := by
  refine h.invariant (I := fun d => ∃ st, d.Inv config st !d.stopped) ?_ ?_
  · rintro _ ⟨tunn, rfl⟩
    exact ⟨_, by rw [Driver.start_stopped]; exact .start config tunn⟩
  · rintro d t d' ⟨st, hi⟩ hs
    exact ⟨_, hi.step hs⟩

/-- Each packet is its own datagram. -/
def plainTunn : Tunn Unit where
  encapsulate s pkt := (.writeToNetwork pkt, s)
  decapsulate s input := (if input.isEmpty then .done else .writeToTunnelV4 input, s)
  updateTimers s := (.done, s)

def plainConfig : WgConfig := ⟨⟨10, 2, 0, 2⟩, none⟩

/-- A query is read from the TUN, and its answer received. -/
def lookupTurns : List Turn :=
  [⟨.burst ⟨udpPacket ⟨10, 0, 0, 5⟩ 5000 ⟨1, 1, 1, 1⟩ 53, 0, true⟩ [], false⟩,
    ⟨.receive (udpPacket ⟨1, 1, 1, 1⟩ 53 ⟨10, 2, 0, 2⟩ 1024, [⟨1, true⟩, ⟨2, true⟩]) [], false⟩]

/-- The state after these turns, as long as they can be made. -/
def Driver.after (T : Tunn τ) (config : WgConfig) (d : Driver τ) : List Turn → Option (Driver τ)
  | [] => some d
  | t :: ts =>
    if d.stopped then none
    else
      match d.turn T config t with
      | .ok d => d.after T config ts
      | .error _ => none

theorem Driver.run_after {ts : List Turn} {d' : Driver τ} (he : ∀ t ∈ ts, t.arm.Enabled config)
    (h : d.after T config ts = some d') : Run (DriverStep T config) d ts d' := by
  induction ts generalizing d with
  | nil => cases h; exact .refl _
  | cons t ts ih =>
      rw [after] at h
      split at h
      · cases h
      next hs =>
      split at h
      · next d₁ e =>
          exact .more ⟨Bool.eq_false_iff.mpr hs, he t List.mem_cons_self, e⟩
            (ih (fun t ht => he t (List.mem_cons_of_mem _ ht)) h)
      · cases h

theorem lookup_run : ∃ d, DriverReachable plainTunn plainConfig d ∧
    (Driver.start plainConfig ()).after plainTunn plainConfig lookupTurns = some d := by
  have hs : ((Driver.start plainConfig ()).after plainTunn plainConfig lookupTurns).isSome =
      true := by decide +kernel
  obtain ⟨d, hd⟩ := Option.isSome_iff_exists.mp hs
  refine ⟨d, ⟨_, lookupTurns, ⟨(), rfl⟩, Driver.run_after (fun t ht => ?_) hd⟩, hd⟩
  rcases List.mem_cons.mp ht with rfl | ht
  · exact (by decide : (0 : ℕ) < DRAIN_BUDGET)
  · cases List.mem_singleton.mp ht
    trivial

end Tunnel.Wg
