import Mathlib.Tactic.IntervalCases
import XMonitor.Lib.BpfHash
import XMonitor.Lib.EventRun

/-!
# Redirection between local sockets

Two kernel programs share a hash map of sockets. `xm_sockops_redir` is called back for the
two ends of a TCP connection when they are established and stores each of them under its
addresses and ports. `xm_sockmsg_redir` is called for a message and asks the kernel to put
it directly into the receive queue of a socket from the map. It runs only for sockets that
are in the map; for the others its own lookup fails, so that it may as well run for all.

The connections are those whose two ends have the same IPv4 address. The kernel knows each
end by its addresses and ports.
-/

namespace XMonitor.SockRedir

def afLocal : UInt32 := 1

def afInet : UInt32 := 2

/-- `bpf_ntohl` and `bpf_htonl` of a little-endian machine. -/
def bpfNtohl (x : UInt32) : UInt32 :=
  (x <<< 24) ||| ((x <<< 8) &&& (0xff0000 : UInt32)) ||| ((x >>> 8) &&& (0xff00 : UInt32)) |||
    (x >>> 24)

/-- A bit comes from the same place in the opposite byte. -/
theorem bpfNtohl_getLsbD (x : UInt32) {i : Nat} (hi : i < 32) :
    (bpfNtohl x).toBitVec.getLsbD i = x.toBitVec.getLsbD (24 - 8 * (i / 8) + i % 8) := by
  simp only [bpfNtohl, UInt32.toBitVec_or, UInt32.toBitVec_and, UInt32.toBitVec_shiftLeft,
    UInt32.toBitVec_shiftRight]
  interval_cases i <;> simp

theorem bpfNtohl_bpfNtohl (x : UInt32) : bpfNtohl (bpfNtohl x) = x := by
  apply UInt32.toBitVec_inj.mp
  apply BitVec.eq_of_getLsbD_eq
  intro i hi
  rw [bpfNtohl_getLsbD _ hi, bpfNtohl_getLsbD _ (by omega)]
  congr 1
  omega

/-- `struct sock_key`. -/
structure SockKey where
  sip4 : UInt32
  dip4 : UInt32
  sport : UInt32
  dport : UInt32
  family : UInt32
deriving DecidableEq, Repr

/-! ## Sockets and what the programs see of them -/

/-- An end of a connection within the host. The address is in network byte order. -/
structure LocalSock where
  ip4 : UInt32
  port : UInt16
  peerPort : UInt16
  port_ne : port ≠ peerPort
deriving DecidableEq, Repr

/-- The other end. -/
def LocalSock.peer (s : LocalSock) : LocalSock where
  ip4 := s.ip4
  port := s.peerPort
  peerPort := s.port
  port_ne := s.port_ne.symm

theorem LocalSock.peer_ne (s : LocalSock) : s.peer ≠ s :=
  fun h => s.port_ne (congrArg LocalSock.peerPort h)

/-- The operations of a callback. -/
inductive SockOp
  | activeEstablished
  | passiveEstablished
  | state (oldState newState : UInt32)
  | tcpListen
  | other
deriving DecidableEq, Repr

/-- `struct bpf_sock_ops`. -/
structure BpfSockOps where
  op : SockOp
  family : UInt32
  localIp4 : UInt32
  remoteIp4 : UInt32
  localPort : UInt32
  remotePort : UInt32

/-- `struct sk_msg_md`. -/
structure SkMsgMd where
  localIp4 : UInt32
  remoteIp4 : UInt32
  localPort : UInt32
  remotePort : UInt32

/-- The context of a callback. The kernel gives the local port in host byte order and the
remote port in network byte order. -/
def LocalSock.sockOps (s : LocalSock) (op : SockOp) : BpfSockOps where
  op := op
  family := afInet
  localIp4 := s.ip4
  remoteIp4 := s.ip4
  localPort := s.port.toUInt32
  remotePort := bpfNtohl s.peerPort.toUInt32

/-- The context of a message, in the same byte orders. -/
def LocalSock.skMsg (s : LocalSock) : SkMsgMd where
  localIp4 := s.ip4
  remoteIp4 := s.ip4
  localPort := s.port.toUInt32
  remotePort := bpfNtohl s.peerPort.toUInt32

/-! ## The programs -/

/-- `xm_sock_redir_hash`. -/
abbrev SockHash := BpfHash SockKey LocalSock 65535

/-- `__xm_extract_key4_from_ops`. -/
def extractKey4FromOps (skops : BpfSockOps) : SockKey where
  family := afLocal
  sip4 := skops.localIp4
  dip4 := skops.remoteIp4
  sport := skops.localPort
  dport := bpfNtohl skops.remotePort

/-- `bpf_sock_hash_update` with `BPF_NOEXIST`. It fails if the key is there or the map is
full, and then leaves the map alone. -/
def sockHashUpdate (hash : SockHash) (key : SockKey) (sk : LocalSock) : SockHash :=
  if key ∈ hash.keys then hash else hash.put key sk

/-- `xm_sockops_redir`, called back for `sk`. The flags that it sets decide which callbacks
come later, and those do not touch the map. -/
def xmSockopsRedir (hash : SockHash) (sk : LocalSock) (skops : BpfSockOps) : SockHash :=
  match skops.op with
  | .activeEstablished | .passiveEstablished =>
      if skops.family = afInet then
        let key := extractKey4FromOps skops
        if key.sip4 = key.dip4 then sockHashUpdate hash key sk else hash
      else hash
  | .state _ _ | .tcpListen | .other => hash

/-- `__xm_extract_key_from_msg`. -/
def extractKeyFromMsg (msg : SkMsgMd) : SockKey where
  family := afLocal
  sip4 := msg.localIp4
  dip4 := msg.remoteIp4
  sport := msg.localPort
  dport := bpfNtohl msg.remotePort

/-- Where a message goes. -/
inductive Delivery
  | pass
  | ingress (sk : LocalSock)
deriving DecidableEq, Repr

/-- `xm_sockmsg_redir`. The verdict is always `SK_PASS`; the message goes to the socket that
`bpf_msg_redirect_hash` has found, or on its normal way. -/
def xmSockmsgRedir (hash : SockHash) (msg : SkMsgMd) : Delivery :=
  match hash.lookup (extractKeyFromMsg msg) with
  | some sk => .ingress sk
  | none => .pass

/-- The kernel takes a closed socket out of the map. -/
def closeSock (hash : SockHash) (sk : LocalSock) : SockHash := hash.filter fun _ sk' => sk' ≠ sk

inductive Event
  | callback (sk : LocalSock) (op : SockOp)
  | close (sk : LocalSock)
deriving DecidableEq, Repr

def handle (hash : SockHash) : Event → SockHash
  | .callback sk op => xmSockopsRedir hash sk (sk.sockOps op)
  | .close sk => closeSock hash sk

def run (events : List Event) : SockHash := events.foldl handle .empty

/-! ## The keys -/

/-- The key of a socket. -/
def LocalSock.key (s : LocalSock) : SockKey :=
  ⟨s.ip4, s.ip4, s.port.toUInt32, s.peerPort.toUInt32, afLocal⟩

@[simp] theorem extractKey4FromOps_sockOps (s : LocalSock) (op : SockOp) :
    extractKey4FromOps (s.sockOps op) = s.key := by
  simp only [extractKey4FromOps, LocalSock.sockOps, LocalSock.key, bpfNtohl_bpfNtohl]

/-- The message program looks for the key of the sender. -/
@[simp] theorem extractKeyFromMsg_skMsg (s : LocalSock) : extractKeyFromMsg s.skMsg = s.key := by
  simp only [extractKeyFromMsg, LocalSock.skMsg, LocalSock.key, bpfNtohl_bpfNtohl]

theorem LocalSock.key_injective {s s' : LocalSock} (h : s.key = s'.key) : s = s' := by
  obtain ⟨ip4, port, peerPort, hne⟩ := s
  obtain ⟨ip4', port', peerPort', hne'⟩ := s'
  obtain ⟨rfl, -, hport, hpeer, -⟩ := SockKey.mk.inj h
  obtain rfl := UInt16.toUInt32_inj.mp hport
  obtain rfl := UInt16.toUInt32_inj.mp hpeer
  rfl

/-! ## What is in the map -/

/-- The socket is in the map. -/
def Registered (hash : SockHash) (s : LocalSock) : Prop := ∃ key, hash.lookup key = some s

/-- Every socket is filed under its key. -/
def Filed (hash : SockHash) : Prop := ∀ key s, hash.lookup key = some s → key = s.key

def SockOp.Established : SockOp → Prop
  | .activeEstablished | .passiveEstablished => True
  | .state _ _ | .tcpListen | .other => False

theorem handle_of_established (hash : SockHash) (s : LocalSock) {op : SockOp}
    (h : op.Established) : handle hash (.callback s op) = sockHashUpdate hash s.key s := by
  cases op with
  | activeEstablished | passiveEstablished =>
      rw [handle, xmSockopsRedir, extractKey4FromOps_sockOps]
      exact (if_pos rfl).trans (if_pos rfl)
  | state | tcpListen | other => exact h.elim

theorem handle_of_not_established (hash : SockHash) (s : LocalSock) {op : SockOp}
    (h : ¬ op.Established) : handle hash (.callback s op) = hash := by
  cases op with
  | activeEstablished | passiveEstablished => exact absurd trivial h
  | state | tcpListen | other => rfl

variable {hash : SockHash}

theorem Filed.sockHashUpdate (h : Filed hash) (s : LocalSock) :
    Filed (sockHashUpdate hash s.key s) := by
  rw [SockRedir.sockHashUpdate]
  split
  · exact h
  · intro key s' hs'
    obtain ⟨rfl, rfl⟩ | ⟨-, hold⟩ := BpfHash.of_lookup_put hs'
    · rfl
    · exact h key s' hold

theorem Filed.handle (h : Filed hash) (e : Event) : Filed (handle hash e) := by
  cases e with
  | callback s op =>
      by_cases hop : op.Established
      · rw [handle_of_established hash s hop]
        exact h.sockHashUpdate s
      · rw [handle_of_not_established hash s hop]
        exact h
  | close s =>
      intro key s' hs'
      exact h key s' (BpfHash.lookup_filter_eq_some.mp hs').1

theorem Filed.registered_iff (h : Filed hash) {s : LocalSock} :
    Registered hash s ↔ hash.lookup s.key = some s := by
  refine ⟨fun ⟨key, hkey⟩ => ?_, fun hs => ⟨s.key, hs⟩⟩
  rw [← h key s hkey]
  exact hkey

theorem filed_run (events : List Event) : Filed (run events) := by
  have hempty : Filed .empty := fun _ _ h => (by cases h)
  have hkeep : ∀ hash e, Filed hash → Filed (handle hash e) := fun _ e h => h.handle e
  exact EventRun.foldl_preserves hkeep hempty events

/-- Storing a socket puts it into the map if there is room, and no other socket. -/
theorem Filed.registered_sockHashUpdate (h : Filed hash) (s s' : LocalSock) :
    Registered (SockRedir.sockHashUpdate hash s'.key s') s ↔
      Registered hash s ∨ s' = s ∧ hash.keys.card < 65535 := by
  rw [(h.sockHashUpdate s').registered_iff, h.registered_iff, SockRedir.sockHashUpdate]
  by_cases hkey : s'.key ∈ hash.keys
  · rw [if_pos hkey]
    refine ⟨.inl, ?_⟩
    rintro (hs | ⟨rfl, -⟩)
    · exact hs
    · obtain ⟨t, ht⟩ := Option.isSome_iff_exists.mp ((hash.mem_keys _).mp hkey)
      rw [ht, LocalSock.key_injective (h _ t ht)]
  · rw [if_neg hkey]
    by_cases hs : s' = s
    · subst hs
      have hnone := BpfHash.lookup_eq_none_iff.mpr hkey
      by_cases hroom : hash.keys.card < 65535
      · simp [BpfHash.lookup_put_self hroom, hroom]
      · rw [BpfHash.put_of_not_hasRoom fun h => h.elim hkey hroom]
        simp [hroom]
    · rw [BpfHash.lookup_put_ne fun heq => hs (LocalSock.key_injective heq.symm)]
      simp [hs]

/-- A socket gets into the map when it is established and there is room for it, and out of it
when it is closed. -/
theorem Filed.registered_handle (h : Filed hash) (e : Event) (s : LocalSock) :
    Registered (SockRedir.handle hash e) s ↔
      (Registered hash s ∨ (∃ op, op.Established ∧ e = .callback s op) ∧
        hash.keys.card < 65535) ∧ e ≠ .close s := by
  cases e with
  | callback s' op =>
      by_cases hop : op.Established
      · rw [handle_of_established hash s' hop, h.registered_sockHashUpdate]
        simp [hop]
      · rw [handle_of_not_established hash s' hop]
        simp [hop]
  | close s' =>
      have hclose : Registered (closeSock hash s') s ↔ Registered hash s ∧ s ≠ s' := by
        simp [Registered, closeSock, BpfHash.lookup_filter_eq_some]
      rw [SockRedir.handle, hclose]
      simp [eq_comm]

/-! ## Where messages go -/

/-- A message goes to its own sender, if that is in the map. -/
theorem Filed.xmSockmsgRedir_of_registered (h : Filed hash) {s : LocalSock}
    (hs : Registered hash s) : xmSockmsgRedir hash s.skMsg = .ingress s := by
  rw [xmSockmsgRedir, extractKeyFromMsg_skMsg, h.registered_iff.mp hs]

theorem Filed.xmSockmsgRedir_of_not_registered (h : Filed hash) {s : LocalSock}
    (hs : ¬ Registered hash s) : xmSockmsgRedir hash s.skMsg = .pass := by
  rw [xmSockmsgRedir, extractKeyFromMsg_skMsg]
  split
  next s' hs' =>
    have heq := LocalSock.key_injective (h _ _ hs')
    exact absurd ⟨s.key, heq ▸ hs'⟩ hs
  next => rfl

/-- A message reaches the peer of its sender if the peer is in the map, and goes on its normal
way if it is not. -/
def ReachesPeer (hash : SockHash) (s : LocalSock) : Prop :=
  (Registered hash s.peer → xmSockmsgRedir hash s.skMsg = .ingress s.peer) ∧
    (¬ Registered hash s.peer → xmSockmsgRedir hash s.skMsg = .pass)

theorem Filed.reachesPeer_iff (h : Filed hash) (s : LocalSock) :
    ReachesPeer hash s ↔ ¬ Registered hash s ∧ ¬ Registered hash s.peer := by
  by_cases hs : Registered hash s
  · -- the sender gets its own message
    have hself := h.xmSockmsgRedir_of_registered hs
    refine ⟨fun hreach => ?_, fun hnone => absurd hs hnone.1⟩
    by_cases hpeer : Registered hash s.peer
    · have heq := hself.symm.trans (hreach.1 hpeer)
      exact absurd (Delivery.ingress.inj heq).symm s.peer_ne
    · have heq := hself.symm.trans (hreach.2 hpeer)
      cases heq
  · have hpass := h.xmSockmsgRedir_of_not_registered hs
    refine ⟨fun hreach => ⟨hs, fun hpeer => ?_⟩, fun hnone => ?_⟩
    · have heq := hpass.symm.trans (hreach.1 hpeer)
      cases heq
    · exact ⟨fun hpeer => absurd hpeer hnone.2, fun _ => hpass⟩

/-- After any history, a message reaches the peer of its sender, or goes on its normal way if
the peer is not in the map, exactly if neither end of the connection is in the map. -/
theorem reachesPeer_run_iff (events : List Event) (s : LocalSock) :
    ReachesPeer (run events) s ↔ ¬ Registered (run events) s ∧ ¬ Registered (run events) s.peer :=
  (filed_run events).reachesPeer_iff s

/-- A client of a server on port 1000 of the same host. -/
def client : LocalSock where
  ip4 := 0x0100007f
  port := 40000
  peerPort := 1000
  port_ne := by decide

/-- Both ends are established, and the client gets back what it sends. -/
theorem client_sends_to_itself :
    ¬ ReachesPeer (run [.callback client.peer .passiveEstablished,
        .callback client .activeEstablished]) client ∧
      xmSockmsgRedir (run [.callback client.peer .passiveEstablished,
        .callback client .activeEstablished]) client.skMsg = .ingress client := by
  have hregistered : Registered (run [.callback client.peer .passiveEstablished,
      .callback client .activeEstablished]) client := ⟨client.key, by decide⟩
  have hfiled := filed_run [.callback client.peer .passiveEstablished,
    .callback client .activeEstablished]
  exact ⟨fun h => ((hfiled.reachesPeer_iff client).mp h).1 hregistered,
    hfiled.xmSockmsgRedir_of_registered hregistered⟩

end XMonitor.SockRedir
