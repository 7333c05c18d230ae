import Tunnel.Support.Table
import Tunnel.Text

/-!
# Engine — The resolver

`DnsGuard`: the resolver of the host, pinned to the tunnel and put back.  Either systemd-resolved is
told about the link of the tunnel, or `/etc/resolv.conf` is rewritten; `Faults` says of each
operation, in the order they are made, whether it fails, and of a write also how far it gets.

* `installDns_ok`: once the guard is there, the tunnel's resolver is the one the host asks, and the
  guard knows what there was.
* `revertDns_conf`, `installDns_error`: that is put back when the guard goes, and when the
  installation fails, where the operations that undo succeed.
-/

namespace Tunnel.Engine
open Support Text

/-! ### What is configured -/

/-- How the resolver of the host is managed. -/
inductive DnsBackend where
  | systemdResolved
  | resolvConf
deriving DecidableEq

/-- What is at `/etc/resolv.conf`. -/
inductive Conf where
  | absent
  | file (contents : Bytes)
  | symlink (target : Text)
deriving DecidableEq

/-- What systemd-resolved is told about a link. -/
structure LinkDns where
  servers : List Ipv4Addr
  domains : List Text
  defaultRoute : Bool
deriving DecidableEq

def LinkDns.default : LinkDns := ⟨[], [], false⟩

/-- The resolver of the host, the links there are, and how many operations have been made. -/
structure Net where
  conf : Conf
  links : Table Text LinkDns
  ran : ℕ

/-- How an operation fails: without an effect, or after so many bytes. -/
inductive Fault where
  | none
  | refused
  | torn (written : ℕ)
deriving DecidableEq

abbrev Faults := ℕ → Fault

def Fault.ok (f : Fault) : Bool := f = .none

section
variable (faults : Faults) (net : Net)

/-- Whether the next operation is let through. -/
def Net.lets : Bool := (faults net.ran).ok

def Net.tick : Net := { net with ran := net.ran + 1 }

/-! ### Files -/

/-- `fs::symlink_metadata(path)`: whether there is a symlink, if anything is there. -/
def symlinkMetadata (net : Net) : Option Bool :=
  match net.conf with
  | .absent => none
  | .file _ => some false
  | .symlink _ => some true

/-- `fs::read_link(path)`. -/
def readLink : Option Text × Net :=
  match net.conf with
  | .symlink target => (if net.lets faults then some target else none, net.tick)
  | _ => (none, net.tick)

/-- `fs::read(path)`, of a path that is no symlink. -/
def readFile : Option Bytes × Net :=
  match net.conf with
  | .file contents => (if net.lets faults then some contents else none, net.tick)
  | _ => (none, net.tick)

/-- `fs::remove_file(path)`. -/
def removeFile : Bool × Net :=
  if net.lets faults ∧ net.conf ≠ .absent then (true, { net.tick with conf := .absent })
  else (false, net.tick)

/-- `symlink(target, path)`. -/
def symlinkTo (target : Text) : Bool × Net :=
  if net.lets faults ∧ net.conf = .absent then (true, { net.tick with conf := .symlink target })
  else (false, net.tick)

/-- `fs::write(path, contents)`.  Through a symlink it is another file that is written. -/
def writeFile (contents : Bytes) : Bool × Net :=
  match net.conf, faults net.ran with
  | .symlink _, f => (f.ok, net.tick)
  | _, .none => (true, { net.tick with conf := .file contents })
  | _, .refused => (false, net.tick)
  | _, .torn n => (false, { net.tick with conf := .file (contents.take n) })

/-! ### systemd-resolved -/

/-- `resolvectl`, about a link. -/
def resolvectl (link : Text) (set : LinkDns → LinkDns) : Bool × Net :=
  match net.links.lookup link with
  | none => (false, net.tick)
  | some dns =>
    if net.lets faults then (true, { net.tick with links := net.links.insert link (set dns) })
    else (false, net.tick)

end

/-- What the resolver looked like before. -/
inductive Restore where
  | symlink (target : Text)
  | contents (bytes : Bytes)
  | absent
deriving DecidableEq

inductive Dns where
  | resolved (link : Text)
  | resolvConf (restore : Restore)
deriving DecidableEq

/-- `RESOLVED_LINK_RETRIES`. -/
def resolvedLinkRetries : ℕ := 20

section
variable (faults : Faults)

/-- Set the server of the link, again where that fails; whether the last attempt did. -/
def setServer (link : Text) (server : Ipv4Addr) : ℕ → Bool → Net → Bool × Net
  | 0, failed, net => (failed, net)
  | n + 1, _, net =>
    match resolvectl faults net link fun dns => { dns with servers := [server] } with
    | (true, net) => (false, net)
    | (false, net) => setServer link server n true net

def installResolved (link : Text) (server : Ipv4Addr) (net : Net) : Except Text Dns × Net :=
  match setServer faults link server resolvedLinkRetries false net with
  | (true, net) =>
    (.error (lit "systemd-resolved never saw the tunnel interface '" ++ link ++ lit "'"), net)
  | (false, net) =>
    match resolvectl faults net link fun dns => { dns with domains := [lit "~."] } with
    | (false, net) =>
      (.error (lit "could not make '" ++ link ++ lit "' the default DNS route"), net)
    | (true, net) =>
      match resolvectl faults net link fun dns => { dns with defaultRoute := true } with
      | (false, net) => (.error (lit "could not set default-route on '" ++ link ++ lit "'"), net)
      -- whether the caches are flushed makes no difference
      | (true, net) => (.ok (.resolved link), net.tick)

/-- What the file that is written says. -/
def resolvBody (server : Ipv4Addr) : Bytes :=
  utf8 (lit "# Written by tunnel while the full tunnel is active.\n" ++
    lit "# The previous configuration is restored when tunnel exits.\n" ++
    lit "nameserver " ++ server.display ++ lit "\n" ++
    lit "options edns0 trust-ad\n")

/-- What there is, with a symlink out of the way. -/
def saveConf (net : Net) : Except Text Restore × Net :=
  match symlinkMetadata net with
  | none => (.ok .absent, net)
  | some true =>
    match readLink faults net with
    | (none, net) => (.error (lit "reading symlink /etc/resolv.conf"), net)
    | (some target, net) =>
      match removeFile faults net with
      | (false, net) => (.error (lit "replacing symlink /etc/resolv.conf"), net)
      | (true, net) => (.ok (.symlink target), net)
  | some false =>
    match readFile faults net with
    | (none, net) => (.error (lit "reading /etc/resolv.conf"), net)
    | (some bytes, net) => (.ok (.contents bytes), net)

def revertDns (dns : Dns) (net : Net) : Net :=
  match dns with
  | .resolved link => (resolvectl faults net link fun _ => .default).2
  | .resolvConf (.symlink target) => (symlinkTo faults (removeFile faults net).2 target).2
  | .resolvConf (.contents bytes) => (writeFile faults net bytes).2
  | .resolvConf .absent => (removeFile faults net).2

end

section
variable (faults undo : Faults)

/-- A write that fails is undone before it is reported: `undo` says how the operations fare that
undo. -/
def installResolvConf (server : Ipv4Addr) (net : Net) : Except Text Dns × Net :=
  match saveConf faults net with
  | (.error e, net) => (.error e, net)
  | (.ok restore, net) =>
    match writeFile faults net (resolvBody server) with
    | (true, net) => (.ok (.resolvConf restore), net)
    | (false, net) =>
      (.error (lit "could not write /etc/resolv.conf (immutable? `lsattr /etc/resolv.conf`)"),
        revertDns undo (.resolvConf restore) net)

def installDns (tunName : Text) (server : Ipv4Addr) (backend : DnsBackend) (net : Net) :
    Except Text Dns × Net :=
  match backend with
  | .systemdResolved => installResolved faults tunName server net
  | .resolvConf => installResolvConf faults undo server net

end

/-! ### What an operation leaves -/

section
variable (faults : Faults) (net : Net)

@[simp] theorem Net.tick_conf : net.tick.conf = net.conf := rfl

@[simp] theorem Net.tick_links : net.tick.links = net.links := rfl

@[simp] theorem removeFile_links : (removeFile faults net).2.links = net.links := by
  unfold removeFile
  split <;> rfl

@[simp] theorem symlinkTo_links (target : Text) :
    (symlinkTo faults net target).2.links = net.links := by
  unfold symlinkTo
  split <;> rfl

@[simp] theorem writeFile_links (contents : Bytes) :
    (writeFile faults net contents).2.links = net.links := by
  unfold writeFile
  split <;> rfl

@[simp] theorem resolvectl_conf (link : Text) (set : LinkDns → LinkDns) :
    (resolvectl faults net link set).2.conf = net.conf := by
  unfold resolvectl
  split
  · rfl
  · split <;> rfl

theorem resolvectl_other {link l : Text} (h : l ≠ link) (set : LinkDns → LinkDns) :
    (resolvectl faults net link set).2.links.lookup l = net.links.lookup l := by
  unfold resolvectl
  split
  · rfl
  · split
    · exact (Finmap.lookup_insert_eq _ _ _ _).trans (if_neg h)
    · rfl

/-- A setting that is taken is there. -/
theorem resolvectl_lookup {link : Text} {set : LinkDns → LinkDns} {net' : Net}
    (h : resolvectl faults net link set = (true, net')) :
    ∃ dns, net.links.lookup link = some dns ∧ net'.links.lookup link = some (set dns) := by
  unfold resolvectl at h
  cases hl : net.links.lookup link with
  | none => simp [hl] at h
  | some dns =>
      simp only [hl] at h
      split at h
      · cases h
        exact ⟨dns, rfl, Finmap.lookup_insert _⟩
      · cases h

end

/-- Only what is said about one link has changed. -/
structure Beside (link : Text) (net net' : Net) : Prop where
  conf : net'.conf = net.conf
  other : ∀ l, l ≠ link → net'.links.lookup l = net.links.lookup l

namespace Beside

variable {link : Text} {net net₁ net₂ : Net}

theorem refl : Beside link net net := ⟨rfl, fun _ _ => rfl⟩

theorem trans (h₁ : Beside link net net₁) (h₂ : Beside link net₁ net₂) : Beside link net net₂ :=
  ⟨h₂.conf.trans h₁.conf, fun l hl => (h₂.other l hl).trans (h₁.other l hl)⟩

theorem tick (h : Beside link net net₁) : Beside link net net₁.tick := ⟨h.conf, h.other⟩

theorem of_resolvectl {faults : Faults} {set : LinkDns → LinkDns} {b : Bool}
    (h : resolvectl faults net link set = (b, net₁)) : Beside link net net₁ := by
  have h₂ : (resolvectl faults net link set).2 = net₁ := congrArg Prod.snd h
  subst h₂
  exact ⟨resolvectl_conf faults net link set, fun _ hl => resolvectl_other faults net hl set⟩

end Beside

theorem setServer_beside (faults : Faults) (link : Text) (server : Ipv4Addr) (n : ℕ) (failed : Bool)
    (net : Net) : Beside link net (setServer faults link server n failed net).2 := by
  induction n generalizing failed net with
  | zero => exact .refl
  | succ n ih =>
      rw [setServer]
      split
      · next heq => exact .of_resolvectl heq
      · next heq => exact (Beside.of_resolvectl heq).trans (ih true _)

theorem setServer_ok {faults : Faults} {link : Text} {server : Ipv4Addr} {n : ℕ} {net net' : Net}
    (h : setServer faults link server n true net = (false, net')) :
    ∃ dns, net'.links.lookup link = some dns ∧ dns.servers = [server] := by
  induction n generalizing net with
  | zero => cases h
  | succ n ih =>
      rw [setServer] at h
      split at h
      · next heq =>
          cases h
          obtain ⟨dns, -, hl⟩ := resolvectl_lookup faults net heq
          exact ⟨_, hl, rfl⟩
      · exact ih h

/-! ### The resolver is pinned -/

/-- The tunnel's resolver is the one that is asked. -/
def Pinned (backend : DnsBackend) (tunName : Text) (server : Ipv4Addr) (net : Net) : Prop :=
  match backend with
  | .systemdResolved => net.links.lookup tunName = some ⟨[server], [lit "~."], true⟩
  | .resolvConf => net.conf = .file (resolvBody server)

theorem installResolved_beside (faults : Faults) (link : Text) (server : Ipv4Addr) (net : Net) :
    Beside link net (installResolved faults link server net).2 := by
  have hs := setServer_beside faults link server resolvedLinkRetries false net
  unfold installResolved
  cases h₁ : setServer faults link server resolvedLinkRetries false net with
  | mk failed net₁ =>
  rw [h₁] at hs
  cases failed with
  | true => exact hs
  | false =>
      simp only
      split
      · next hd => exact hs.trans (.of_resolvectl hd)
      · next hd =>
          have h₂ := Beside.trans hs (.of_resolvectl hd)
          split
          · next hr => exact h₂.trans (.of_resolvectl hr)
          · next hr => exact (h₂.trans (.of_resolvectl hr)).tick

theorem installResolved_ok {faults : Faults} {link : Text} {server : Ipv4Addr} {net net' : Net}
    {dns : Dns} (h : installResolved faults link server net = (.ok dns, net')) :
    dns = .resolved link ∧ net'.links.lookup link = some ⟨[server], [lit "~."], true⟩ := by
  unfold installResolved at h
  split at h
  · cases h
  · next net₁ hs =>
      split at h
      · cases h
      · next net₂ hd =>
          split at h
          · cases h
          · next net₃ hr =>
              cases h
              -- there is a first attempt, so one of the attempts set the server
              have hs' : setServer faults link server resolvedLinkRetries true net =
                  (false, net₁) := hs
              obtain ⟨dns, hl, hserver⟩ := setServer_ok hs'
              obtain ⟨dns₁, hl₁, hl₂⟩ := resolvectl_lookup faults net₁ hd
              obtain ⟨dns₂, hl₂', hl₃⟩ := resolvectl_lookup faults net₂ hr
              rw [hl] at hl₁
              cases hl₁
              rw [hl₂] at hl₂'
              cases hl₂'
              refine ⟨rfl, hl₃.trans ?_⟩
              rw [hserver]

/-! ### The file is put back -/

def Restore.conf : Restore → Conf
  | .symlink target => .symlink target
  | .contents bytes => .file bytes
  | .absent => .absent

/-- A file that is written, or none. -/
def Conf.Plain : Conf → Prop
  | .symlink _ => False
  | _ => True

/-- What is found, and what is done about it. -/
theorem saveConf_eq (faults : Faults) (net : Net) :
    saveConf faults net =
      match net.conf with
      | .absent => (.ok .absent, net)
      | .file bytes =>
        if net.lets faults then (.ok (.contents bytes), net.tick)
        else (.error (lit "reading /etc/resolv.conf"), net.tick)
      | .symlink target =>
        if net.lets faults then
          if net.tick.lets faults then
            (.ok (.symlink target), { net.tick.tick with conf := .absent })
          else (.error (lit "replacing symlink /etc/resolv.conf"), net.tick.tick)
        else (.error (lit "reading symlink /etc/resolv.conf"), net.tick) := by
  unfold saveConf symlinkMetadata
  cases hc : net.conf with
  | absent => rfl
  | file bytes => cases hl : net.lets faults <;> simp [readFile, hc, hl]
  | symlink target =>
      cases hl : net.lets faults <;> cases ht : net.tick.lets faults <;>
        simp [readLink, removeFile, hc, hl, ht]

theorem saveConf_links (faults : Faults) (net : Net) :
    (saveConf faults net).2.links = net.links := by
  rw [saveConf_eq]
  split
  · rfl
  · split_ifs <;> rfl
  · split_ifs <;> rfl

theorem saveConf_ok {faults : Faults} {net net' : Net} {restore : Restore}
    (h : saveConf faults net = (.ok restore, net')) :
    restore.conf = net.conf ∧ net'.conf.Plain := by
  rw [saveConf_eq] at h
  cases hc : net.conf with
  | absent =>
      rw [hc] at h
      cases h
      exact ⟨rfl, hc ▸ trivial⟩
  | file bytes =>
      rw [hc] at h
      simp only at h
      split_ifs at h <;> cases h
      exact ⟨rfl, (hc ▸ trivial : net.conf.Plain)⟩
  | symlink target =>
      rw [hc] at h
      simp only at h
      split_ifs at h <;> cases h
      exact ⟨rfl, trivial⟩

theorem saveConf_error {faults : Faults} {net net' : Net} {e : Text}
    (h : saveConf faults net = (.error e, net')) : net'.conf = net.conf := by
  rw [saveConf_eq] at h
  split at h
  · cases h
  · split_ifs at h <;> cases h
    rfl
  · split_ifs at h <;> cases h <;> rfl

theorem writeFile_plain {faults : Faults} {net : Net} {contents : Bytes} (h : net.conf.Plain) :
    (writeFile faults net contents).2.conf.Plain := by
  unfold writeFile
  split
  · exact h
  · trivial
  · exact h
  · trivial

theorem writeFile_ok {faults : Faults} {net net' : Net} {contents : Bytes} (h : net.conf.Plain)
    (hw : writeFile faults net contents = (true, net')) : net'.conf = .file contents := by
  unfold writeFile at hw
  split at hw
  · next hc => rw [hc] at h; cases h
  · cases hw; rfl
  · cases hw
  · cases hw

theorem revertDns_conf {undo : Faults} (hu : ∀ i, undo i = .none) (restore : Restore) {net : Net}
    (h : net.conf.Plain) : (revertDns undo (.resolvConf restore) net).conf = restore.conf := by
  have hlets : ∀ net : Net, net.lets undo = true := fun net => by
    rw [Net.lets, hu]
    rfl
  have hremove : (removeFile undo net).2.conf = .absent := by
    unfold removeFile
    by_cases hc : net.conf = .absent
    · rw [if_neg (fun hn => hn.2 hc)]
      exact hc
    · rw [if_pos ⟨hlets net, hc⟩]
  cases restore with
  | symlink target =>
      rw [revertDns, symlinkTo, if_pos ⟨hlets _, hremove⟩]
      rfl
  | contents bytes =>
      have hw : writeFile undo net bytes = (true, { net.tick with conf := .file bytes }) := by
        unfold writeFile
        rw [hu]
        cases hc : net.conf with
        | absent => rfl
        | file _ => rfl
        | symlink _ => rw [hc] at h; cases h
      rw [revertDns, hw]
      rfl
  | absent => exact hremove

theorem Beside.revert (undo : Faults) (link : Text) (net : Net) :
    Beside link net (revertDns undo (.resolved link) net) :=
  .of_resolvectl (b := (resolvectl undo net link fun _ => .default).1) rfl

theorem revertDns_links (undo : Faults) (restore : Restore) (net : Net) :
    (revertDns undo (.resolvConf restore) net).links = net.links := by
  cases restore <;> simp [revertDns]

/-! ### The guard -/

section
variable {faults undo : Faults} {tunName : Text} {server : Ipv4Addr} {backend : DnsBackend}
  {net net' : Net}

/-- What a guard puts back is what there was, and it can. -/
def Dns.Keeps (dns : Dns) (tunName : Text) (before after : Conf) : Prop :=
  match dns with
  | .resolved link => link = tunName ∧ after = before
  | .resolvConf restore => restore.conf = before ∧ after.Plain

theorem installResolvConf_links (faults undo : Faults) (server : Ipv4Addr) (net : Net) :
    (installResolvConf faults undo server net).2.links = net.links := by
  have hs := saveConf_links faults net
  unfold installResolvConf
  split
  · next h => rw [h] at hs; exact hs
  · next net₁ h =>
      rw [h] at hs
      have hw := writeFile_links faults net₁ (resolvBody server)
      split
      · next h' => rw [h'] at hw; exact hw.trans hs
      · next h' =>
          rw [h'] at hw
          exact (revertDns_links _ _ _).trans (hw.trans hs)

theorem installDns_other (backend : DnsBackend) {l : Text} (hl : l ≠ tunName) :
    (installDns faults undo tunName server backend net).2.links.lookup l = net.links.lookup l := by
  cases backend with
  | systemdResolved => exact (installResolved_beside faults tunName server net).other l hl
  | resolvConf =>
      exact congrArg (Finmap.lookup l) (installResolvConf_links faults undo server net)

/-- Once the guard is there, the resolver is pinned, and the guard knows what there was. -/
theorem installDns_ok {dns : Dns}
    (h : installDns faults undo tunName server backend net = (.ok dns, net')) :
    Pinned backend tunName server net' ∧ dns.Keeps tunName net.conf net'.conf := by
  cases backend with
  | systemdResolved =>
      obtain ⟨rfl, hp⟩ := installResolved_ok h
      have hb := installResolved_beside faults tunName server net
      rw [show installResolved faults tunName server net = (.ok (.resolved tunName), net') from h]
        at hb
      exact ⟨hp, rfl, hb.conf⟩
  | resolvConf =>
      rw [installDns, installResolvConf] at h
      split at h
      · cases h
      · next hs =>
          obtain ⟨hr, hplain⟩ := saveConf_ok hs
          split at h
          · next hw =>
              cases h
              have hwritten := writeFile_ok hplain hw
              exact ⟨hwritten, hr, hwritten ▸ trivial⟩
          · cases h

/-- An installation that fails leaves the file as it was. -/
theorem installDns_error (hu : ∀ i, undo i = .none) {e : Text}
    (h : installDns faults undo tunName server backend net = (.error e, net')) :
    net'.conf = net.conf := by
  cases backend with
  | systemdResolved =>
      have hb := installResolved_beside faults tunName server net
      rw [show installResolved faults tunName server net = (.error e, net') from h] at hb
      exact hb.conf
  | resolvConf =>
      rw [installDns, installResolvConf] at h
      split at h
      · next hs =>
          cases h
          exact saveConf_error hs
      · next net₁ hs =>
          obtain ⟨hr, hplain⟩ := saveConf_ok hs
          have hw : (writeFile faults net₁ (resolvBody server)).2.conf.Plain := writeFile_plain hplain
          split at h
          · cases h
          · next heq =>
              cases h
              rw [heq] at hw
              rw [revertDns_conf hu _ hw, hr]

end

end Tunnel.Engine
