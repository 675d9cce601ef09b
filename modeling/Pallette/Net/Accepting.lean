import Pallette.Numerals
import Pallette.Reasoning.OrdMap
import Pallette.Reasoning.Run

/-!
# Accepting — the names of the connections of a TcpServer, and the map they are the keys of

`inet_ntop` is the C library's.  A connection is what `TcpServer` reads of it, its name, and all the
rest as a value of type `ν`.
-/

open Reasoning

namespace Pallette

inductive Family
  | AF_INET
  | AF_INET6
deriving DecidableEq, Repr

namespace Family

/-- `INET_ADDRSTRLEN` and `INET6_ADDRSTRLEN`, with the closing zero. -/
def addrStrLen : Family → Nat
  | .AF_INET => 16
  | .AF_INET6 => 46

end Family

structure InetAddress (α : Type) where
  family : Family
  addr : α
  port : UInt16

variable {α : Type}

/-- `inet_ntop` writes no more than the lengths that `<netinet/in.h>` promises. -/
def Bounded (inet_ntop : Family → α → Bytes) : Prop :=
  ∀ family addr, (inet_ntop family addr).length < family.addrStrLen

namespace InetAddress

/-- `sockets::toIp`, behind its assertion. -/
def toIp (inet_ntop : Family → α → Bytes) (size : Nat) (address : InetAddress α) : Option Bytes :=
  if address.family.addrStrLen ≤ size then some (inet_ntop address.family address.addr) else none

/-- `sockets::toIpPort` -/
def toIpPortIn (inet_ntop : Family → α → Bytes) (size : Nat) (address : InetAddress α) :
    Option Bytes := do
  let ip ← toIp inet_ntop size address
  if ip.length < size then
    some (ip ++ snprintf (size - ip.length) (ascii ":" ++ decimalText address.port.toNat))
  else none

def toIpPort (inet_ntop : Family → α → Bytes) (address : InetAddress α) : Option Bytes :=
  toIpPortIn inet_ntop 64 address

/-- The longest address with the longest port has 51 bytes. -/
theorem exists_toIpPort {inet_ntop : Family → α → Bytes} (h : Bounded inet_ntop)
    (address : InetAddress α) :
    ∃ ipPort, toIpPort inet_ntop address = some ipPort ∧ ipPort.length ≤ 51 := by
  have hip := h address.family address.addr
  have hlong : address.family.addrStrLen ≤ 46 := by cases address.family <;> decide
  have hport : (ascii ":" ++ decimalText address.port.toNat).length ≤ 6 := by
    have hdigits := @length_repr_le address.port.toNat 5 (by decide)
      (by have hlt := address.port.toNat_lt; omega)
    rw [decimalText_natCast, List.length_append]
    change 1 + _ ≤ 6
    omega
  unfold toIpPort toIpPortIn toIp
  rw [if_pos (by omega), some_bind, if_pos (by omega), snprintf_of_lt (by omega)]
  refine ⟨_, rfl, ?_⟩
  rw [List.length_append]
  omega

end InetAddress

variable {ν : Type}

/-- What a `TcpConnectionPtr` leads to. -/
structure Accepted (ν : Type) where
  name : Bytes
  body : ν

/-- The part of a `TcpServer` that names its connections and keeps them. -/
structure TcpServer (ν : Type) where
  ipPort_ : Bytes
  name_ : Bytes
  nextConnId_ : Int := 1
  connections_ : OrdMap Bytes (Accepted ν) := .empty

namespace TcpServer

def new (inet_ntop : Family → α → Bytes) (listenAddr : InetAddress α) (nameArg : Bytes) :
    Option (TcpServer ν) := do
  let ipPort ← listenAddr.toIpPort inet_ntop
  some { ipPort_ := ipPort, name_ := nameArg }

/-- The name a connection gets, made in a buffer of 64 bytes. -/
def connName (name ipPort : Bytes) (id : Int) : Bytes :=
  name ++ snprintf 64 (ascii "-" ++ ipPort ++ ascii "#" ++ decimalText id)

/-- `newConnection`, with the connection it makes. -/
def newConnection (server : TcpServer ν) (body : ν) : Option (TcpServer ν × Accepted ν) := do
  let connName := connName server.name_ server.ipPort_ server.nextConnId_
  let next ← asInt (server.nextConnId_ + 1)
  let conn : Accepted ν := ⟨connName, body⟩
  some ({ server with
    nextConnId_ := next
    connections_ := server.connections_.insert connName conn }, conn)

/-- `removeConnectionInLoop`, behind its assertion that one entry was erased. -/
def removeConnectionInLoop (server : TcpServer ν) (conn : Accepted ν) : Option (TcpServer ν) :=
  let n := if (server.connections_.find? conn.name).isSome then 1 else 0
  if n = 1 then some { server with connections_ := server.connections_.erase conn.name } else none

/-! ## Names -/

variable {name ipPort : Bytes} {i j : Nat}

/-- An id of ten digits behind 51 bytes of address fills the buffer to its last byte. -/
theorem connName_eq (name : Bytes) (hipPort : ipPort.length ≤ 51) (hi : i < 2 ^ 31) :
    connName name ipPort i = name ++ (ascii "-" ++ ipPort ++ ascii "#" ++ ascii (Nat.repr i)) := by
  have hdigits := @length_repr_le i 10 (by decide) (by omega)
  have hmarks : (ascii "-").length = 1 ∧ (ascii "#").length = 1 := by decide
  rw [connName, decimalText_natCast, snprintf_of_lt]
  simp only [List.length_append, hmarks]
  omega

theorem connName_injective (hipPort : ipPort.length ≤ 51) (hi : i < 2 ^ 31) (hj : j < 2 ^ 31)
    (h : connName name ipPort i = connName name ipPort j) : i = j := by
  rw [connName_eq name hipPort hi, connName_eq name hipPort hj] at h
  have hdigits := List.append_cancel_left (List.append_cancel_left h)
  rw [← decimal_repr i, hdigits, decimal_repr]

/-! ## Runs -/

/-- A connection is accepted, or the one accepted as number `i` (from 0) is removed. -/
inductive Label (ν : Type)
  | accept (body : ν)
  | remove (i : Nat)

/-- The server, every connection it ever accepted, and the numbers of those removed. -/
structure World (ν : Type) where
  server : TcpServer ν
  accepted : List (Accepted ν) := []
  removed : List Nat := []

namespace World

def step (w : World ν) : Label ν → Option (World ν)
  | .accept body => do
      let (server, conn) ← w.server.newConnection body
      some { w with server := server, accepted := w.accepted ++ [conn] }
  | .remove i => do
      let conn ← w.accepted[i]?
      let server ← w.server.removeConnectionInLoop conn
      some { w with server := server, removed := i :: w.removed }

/-- Fewer than `2 ^ 31 - 1` connections, and each removed at most once. -/
def Allowed (w : World ν) : Label ν → Prop
  | .accept _ => w.accepted.length + 1 < 2 ^ 31 - 1
  | .remove i => i < w.accepted.length ∧ i ∉ w.removed

def Step (w : World ν) (l : Label ν) (w' : World ν) : Prop :=
  w.Allowed l ∧ w.step l = some w'

/-- The connections accepted and not yet removed. -/
def Live (w : World ν) (conn : Accepted ν) : Prop :=
  ∃ i, w.accepted[i]? = some conn ∧ i ∉ w.removed

structure Inv (name ipPort : Bytes) (w : World ν) : Prop where
  name_eq : w.server.name_ = name
  ipPort_eq : w.server.ipPort_ = ipPort
  nextConnId : w.server.nextConnId_ = w.accepted.length + 1
  few : w.accepted.length < 2 ^ 31 - 1
  removed : ∀ i ∈ w.removed, i < w.accepted.length
  names : ∀ i conn, w.accepted[i]? = some conn → conn.name = connName name ipPort (i + 1 : Nat)
  live : ∀ key conn, w.server.connections_.find? key = some conn ↔ conn.name = key ∧ w.Live conn

variable {w w' : World ν} {conn : Accepted ν} {body : ν}

/-- The number of a connection is in its name. -/
theorem Inv.number_eq (h : Inv name ipPort w) (hipPort : ipPort.length ≤ 51) {other : Accepted ν}
    (hi : w.accepted[i]? = some conn) (hj : w.accepted[j]? = some other)
    (hname : conn.name = other.name) :
    i = j := by
  have hlt := (List.getElem?_eq_some_iff.mp hi).1
  have hlt' := (List.getElem?_eq_some_iff.mp hj).1
  have hfew := h.few
  rw [h.names i conn hi, h.names j other hj] at hname
  have hsucc := connName_injective hipPort (by omega) (by omega) hname
  omega

theorem Inv.nodup (h : Inv name ipPort w) (hipPort : ipPort.length ≤ 51) :
    (w.accepted.map Accepted.name).Nodup := by
  unfold List.Nodup
  rw [List.pairwise_map, List.pairwise_iff_getElem]
  intro i j hi hj hlt hname
  have heq := h.number_eq hipPort (List.getElem?_eq_getElem hi) (List.getElem?_eq_getElem hj) hname
  omega

/-- The next name is new. -/
theorem Inv.fresh (h : Inv name ipPort w) (hipPort : ipPort.length ≤ 51) :
    w.server.connections_.find? (connName name ipPort (w.accepted.length + 1 : Nat)) = none := by
  by_contra hsome
  obtain ⟨conn, hconn⟩ := Option.ne_none_iff_exists'.mp hsome
  obtain ⟨hname, i, hi, -⟩ := (h.live _ conn).mp hconn
  have hlt := (List.getElem?_eq_some_iff.mp hi).1
  have hfew := h.few
  rw [h.names i conn hi] at hname
  have hsucc := connName_injective hipPort (by omega) (by omega) hname
  omega

theorem getElem?_concat_iff {l : List (Accepted ν)} {other : Accepted ν} :
    (l ++ [other])[i]? = some conn ↔ l[i]? = some conn ∨ (i = l.length ∧ conn = other) := by
  obtain hlt | hge := Nat.lt_or_ge i l.length
  · rw [List.getElem?_append_left hlt]
    exact ⟨.inl, fun h ↦ h.resolve_right (by omega)⟩
  · rw [List.getElem?_append_right hge, List.getElem?_eq_none hge, List.getElem?_singleton]
    constructor
    · intro h
      split at h
      · cases h
        exact .inr ⟨by omega, rfl⟩
      · cases h
    · rintro (h | ⟨rfl, rfl⟩)
      · cases h
      · rw [if_pos (Nat.sub_self _)]

/-- A new connection lives, and changes nothing for the others. -/
theorem live_accept (hremoved : ∀ i ∈ w.removed, i < w.accepted.length) {server : TcpServer ν}
    {other : Accepted ν} :
    ({ w with server := server, accepted := w.accepted ++ [other] } : World ν).Live conn ↔
      w.Live conn ∨ conn = other := by
  unfold Live
  constructor
  · rintro ⟨i, hi, hlive⟩
    obtain hold | ⟨-, rfl⟩ := getElem?_concat_iff.mp hi
    · exact .inl ⟨i, hold, hlive⟩
    · exact .inr rfl
  · rintro (⟨i, hi, hlive⟩ | rfl)
    · exact ⟨i, getElem?_concat_iff.mpr (.inl hi), hlive⟩
    · exact ⟨w.accepted.length, getElem?_concat_iff.mpr (.inr ⟨rfl, rfl⟩),
        fun hmem ↦ Nat.lt_irrefl _ (hremoved _ hmem)⟩

theorem Inv.accept (h : Inv name ipPort w) (hipPort : ipPort.length ≤ 51)
    (hallowed : w.Allowed (.accept body)) :
    ∃ server, w.server.newConnection body =
        some (server, ⟨connName name ipPort (w.accepted.length + 1 : Nat), body⟩) ∧
      Inv name ipPort
        { w with
          server := server
          accepted := w.accepted ++
            [⟨connName name ipPort (w.accepted.length + 1 : Nat), body⟩] } := by
  have hallowed : w.accepted.length + 1 < 2 ^ 31 - 1 := hallowed
  have hfresh := h.fresh hipPort
  have hnew : w.server.newConnection body = some ({ w.server with
      nextConnId_ := (w.accepted.length + 1 : Int) + 1
      connections_ := w.server.connections_.insert
        (connName name ipPort (w.accepted.length + 1 : Nat))
        ⟨connName name ipPort (w.accepted.length + 1 : Nat), body⟩ },
      ⟨connName name ipPort (w.accepted.length + 1 : Nat), body⟩) := by
    rw [← h.name_eq, ← h.ipPort_eq, newConnection, h.nextConnId, asInt_bind (by omega) (by omega)]
    rfl
  generalize hname : connName name ipPort (w.accepted.length + 1 : Nat) = newName at hnew hfresh ⊢
  refine ⟨_, hnew, h.name_eq, h.ipPort_eq, ?_, ?_, ?_, ?_, ?_⟩
  · rw [List.length_append]
    rfl
  · rw [List.length_append]
    exact hallowed
  · intro i hi
    have hlt := h.removed i hi
    rw [List.length_append]
    omega
  · intro i conn hi
    obtain hold | ⟨rfl, rfl⟩ := getElem?_concat_iff.mp hi
    · exact h.names i conn hold
    · exact hname.symm
  · intro key conn
    dsimp only
    rw [OrdMap.find?_insert, live_accept h.removed]
    split
    next hkey =>
      subst hkey
      constructor
      · intro heq
        cases heq
        exact ⟨rfl, .inr rfl⟩
      · rintro ⟨hnew, hold | rfl⟩
        · have hfound := (h.live key conn).mpr ⟨hnew, hold⟩
          rw [hfresh] at hfound
          cases hfound
        · rfl
    next hkey =>
      rw [h.live]
      apply and_congr_right
      intro hconn
      constructor
      · exact .inl
      · rintro (hold | rfl)
        · exact hold
        · exact absurd hconn.symm hkey

theorem Inv.find?_live (h : Inv name ipPort w) (hi : w.accepted[i]? = some conn)
    (hlive : i ∉ w.removed) :
    w.server.connections_.find? conn.name = some conn :=
  (h.live conn.name conn).mpr ⟨rfl, i, hi, hlive⟩

theorem Inv.remove (h : Inv name ipPort w) (hipPort : ipPort.length ≤ 51)
    (hi : w.accepted[i]? = some conn) (hlive : i ∉ w.removed) :
    ∃ server, w.server.removeConnectionInLoop conn = some server ∧
      server.connections_.find? conn.name = none ∧
      (∀ key, key ≠ conn.name → server.connections_.find? key = w.server.connections_.find? key) ∧
      Inv name ipPort { w with server := server, removed := i :: w.removed } := by
  have hremove : w.server.removeConnectionInLoop conn =
      some { w.server with connections_ := w.server.connections_.erase conn.name } := by
    rw [removeConnectionInLoop, h.find?_live hi hlive]
    rfl
  have herase := w.server.connections_.find?_erase conn.name
  refine ⟨_, hremove, (herase conn.name).trans (if_pos rfl),
    fun key hkey ↦ (herase key).trans (if_neg hkey),
    h.name_eq, h.ipPort_eq, h.nextConnId, h.few, ?_, h.names, ?_⟩
  · intro j hj
    obtain rfl | hj := List.mem_cons.mp hj
    · exact (List.getElem?_eq_some_iff.mp hi).1
    · exact h.removed j hj
  · intro key other
    dsimp only
    rw [OrdMap.find?_erase]
    split
    next hkey =>
      subst hkey
      constructor
      · exact nofun
      · rintro ⟨hname, j, hj, hother⟩
        exact absurd List.mem_cons_self (h.number_eq hipPort hj hi hname ▸ hother)
    next hkey =>
      rw [h.live]
      apply and_congr_right
      intro hother
      constructor
      · rintro ⟨j, hj, hjlive⟩
        refine ⟨j, hj, ?_⟩
        intro hmem
        obtain rfl | hmem := List.mem_cons.mp hmem
        · rw [hi] at hj
          cases hj
          exact hkey hother.symm
        · exact hjlive hmem
      · rintro ⟨j, hj, hjlive⟩
        exact ⟨j, hj, fun hmem ↦ hjlive (List.mem_cons_of_mem i hmem)⟩

theorem Inv.step (h : Inv name ipPort w) (hipPort : ipPort.length ≤ 51) {l : Label ν}
    (hstep : w.Step l w') :
    Inv name ipPort w' := by
  obtain ⟨hallowed, hstep⟩ := hstep
  cases l with
  | accept body =>
    obtain ⟨server, hnew, hinv⟩ := h.accept hipPort hallowed
    rw [World.step, hnew] at hstep
    cases hstep
    exact hinv
  | remove i =>
    obtain ⟨hlt, hlive⟩ := hallowed
    have hi := List.getElem?_eq_getElem hlt
    obtain ⟨server, hremove, -, -, hinv⟩ := h.remove hipPort hi hlive
    rw [World.step, hi, some_bind, hremove] at hstep
    cases hstep
    exact hinv

theorem inv_new (name ipPort : Bytes) :
    Inv name ipPort (ν := ν) ⟨{ ipPort_ := ipPort, name_ := name }, [], []⟩ where
  name_eq := rfl
  ipPort_eq := rfl
  nextConnId := rfl
  few := by show 0 < 2 ^ 31 - 1; decide
  removed := nofun
  names _ _ := nofun
  live _ _ := ⟨nofun, fun h ↦ by obtain ⟨_, _, hi, _⟩ := h; cases hi⟩

/-- What can be said of every state. -/
structure Sound (name ipPort : Bytes) (w : World ν) : Prop where
  /-- The id is not cut off. -/
  names : ∀ i conn, w.accepted[i]? = some conn →
    conn.name = name ++ (ascii "-" ++ ipPort ++ ascii "#" ++ ascii (Nat.repr (i + 1)))
  distinct : (w.accepted.map Accepted.name).Nodup
  live : ∀ key conn, w.server.connections_.find? key = some conn ↔ conn.name = key ∧ w.Live conn
  /-- No live entry is overwritten. -/
  accept : ∀ body, w.Allowed (.accept body) → ∃ server conn,
    w.server.newConnection body = some (server, conn) ∧ conn.body = body ∧
      w.server.connections_.find? conn.name = none
  /-- The assertion holds, and the entry of the connection goes. -/
  remove : ∀ i conn, w.accepted[i]? = some conn → i ∉ w.removed →
    w.server.connections_.find? conn.name = some conn ∧
      ∃ server, w.server.removeConnectionInLoop conn = some server ∧
        server.connections_.find? conn.name = none ∧
        ∀ key, key ≠ conn.name → server.connections_.find? key = w.server.connections_.find? key

theorem Inv.sound (h : Inv name ipPort w) (hipPort : ipPort.length ≤ 51) : Sound name ipPort w where
  names i conn hi := by
    have hlt := (List.getElem?_eq_some_iff.mp hi).1
    have hfew := h.few
    rw [h.names i conn hi, connName_eq name hipPort (by omega)]
  distinct := h.nodup hipPort
  live := h.live
  accept body hallowed := by
    obtain ⟨server, hnew, -⟩ := h.accept hipPort hallowed
    exact ⟨server, _, hnew, rfl, h.fresh hipPort⟩
  remove i conn hi hlive := by
    obtain ⟨server, hremove, hgone, hrest, -⟩ := h.remove hipPort hi hlive
    exact ⟨h.find?_live hi hlive, server, hremove, hgone, hrest⟩

end World

/-- Whatever the address the server listens on, every connection of a run has a name of its own, and
the map has the connections accepted and not yet removed. -/
theorem connections_sound {inet_ntop : Family → α → Bytes} (hntop : Bounded inet_ntop)
    (listenAddr : InetAddress α) (nameArg : Bytes) :
    ∃ ipPort server, listenAddr.toIpPort inet_ntop = some ipPort ∧
      (new inet_ntop listenAddr nameArg : Option (TcpServer ν)) = some server ∧
      ∀ labels w, Run World.Step ⟨server, [], []⟩ labels w → World.Sound nameArg ipPort w := by
  obtain ⟨ipPort, hipPort, hlength⟩ := listenAddr.exists_toIpPort hntop
  refine ⟨ipPort, { ipPort_ := ipPort, name_ := nameArg }, hipPort, ?_, ?_⟩
  · rw [new, hipPort]
    rfl
  · intro labels w hrun
    have hinv := hrun.invariant (World.Inv nameArg ipPort) (fun _ _ _ h hstep ↦
      h.step hlength hstep)
      (World.inv_new nameArg ipPort)
    exact hinv.sound hlength

/-- `inet_ntop` for `AF_INET`; the other family has the unspecified address only. -/
def dotted : Family → UInt8 × UInt8 × UInt8 × UInt8 → Bytes
  | .AF_INET, (a, b, c, d) =>
      decimalText a.toNat ++ ascii "." ++ decimalText b.toNat ++ ascii "." ++ decimalText c.toNat ++
        ascii "." ++
        decimalText d.toNat
  | .AF_INET6, _ => ascii "::"

theorem bounded_dotted : Bounded dotted := by
  have hbyte : ∀ a : UInt8, (decimalText a.toNat).length ≤ 3 := fun a ↦
    length_repr_le (by decide) (Nat.lt_trans a.toNat_lt (by decide))
  rintro (_ | _) ⟨a, b, c, d⟩
  · have hpoint : (ascii ".").length = 1 := rfl
    have hfirst := And.intro (hbyte a) (hbyte b)
    have hlast := And.intro (hbyte c) (hbyte d)
    simp only [dotted, List.length_append, hpoint, Family.addrStrLen]
    omega
  · show (ascii "::").length < 46
    decide

theorem connections_sound_removed :
    ∃ w : World Unit, Run World.Step ⟨{ ipPort_ := ascii "127.0.0.1:80", name_ := ascii "echo" },
      [], []⟩
      [.accept (), .remove 0] w ∧ World.Sound (ascii "echo") (ascii "127.0.0.1:80") w := by
  obtain ⟨ipPort, server, hipPort, hserver, hsound⟩ :=
    @connections_sound _ Unit dotted bounded_dotted ⟨.AF_INET, (127, 0, 0, 1), 80⟩ (ascii "echo")
  have hipPort' : some ipPort = some (ascii "127.0.0.1:80") := hipPort.symm.trans (by decide)
  have hserver' : some server = some { ipPort_ := ascii "127.0.0.1:80", name_ := ascii "echo" } :=
    hserver.symm.trans rfl
  cases hipPort'
  cases hserver'
  obtain ⟨w, hrun⟩ : ∃ w : World Unit,
      Run World.Step ⟨{ ipPort_ := ascii "127.0.0.1:80", name_ := ascii "echo" }, [], []⟩
        [.accept (), .remove 0] w :=
    ⟨_, .cons ⟨(by decide : 0 + 1 < 2 ^ 31 - 1), rfl⟩
      (.cons ⟨⟨(by decide : 0 < 1), List.not_mem_nil⟩, rfl⟩ (.nil _))⟩
  exact ⟨w, hrun, hsound _ w hrun⟩

end TcpServer

end Pallette
