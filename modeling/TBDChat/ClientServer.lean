import TBDChat.Replies
import TBDChat.OwnNames
import TBDChat.ActorFrame

/-!
# A client and the server

The shipped client keeps two things of its session, the username it writes into
its packets and the number of the room it takes itself to be in.  Both come from
replies: LOGSUC sets them, JOINSUC changes the room.  Between the client and the
server there are two channels, each in order.
-/

namespace TBDChat
open Atomic

/-! ## The client -/

/-- What the client keeps: `username` and `currentRoom`. -/
structure Client where
  username : Str
  currentRoom : Int
  deriving DecidableEq

namespace Client

/-- The word that the login succeeded. -/
def loggedIn (rx_pkt : Packet) (_ : Client) : Client where
  username := rx_pkt.username
  currentRoom := DEFAULT_ROOM

/-- The word that the client is in a new room.  There is no result where it has no
second word to read, or more words than its array holds. -/
def newRoom (rx_pkt : Packet) (k : Client) : Option Client :=
  let args := words rx_pkt.buf
  if args.length ≤ 1 ∨ 15 < args.length then none
  else
    let roomNumber := atoi (arg args 1)
    some (if roomNumber ≠ k.currentRoom then { k with currentRoom := roomNumber } else k)

/-- The other replies are printed. -/
def serverResponse (rx_pkt : Packet) (k : Client) : Option Client :=
  if rx_pkt.options = LOGSUC then some (k.loggedIn rx_pkt)
  else if rx_pkt.options = JOINSUC then k.newRoom rx_pkt
  -- the socket is closed, and the next `recv` fails
  else if rx_pkt.options = EXIT then none
  else some k

/-- One round of the loop of `chatRX`, `none` if it is the last. -/
def chatRX (k : Client) (rx_pkt : Packet) : Option Client :=
  if 1000 ≤ rx_pkt.options then some k
  else if 0 < rx_pkt.options then k.serverResponse rx_pkt
  else none

/-- The client after all of the packets. -/
def catchUp (k : Client) (down : List Packet) : Option Client := down.foldlM chatRX k

end Client

/-- The packets among the effects that go to `fd`. -/
def sentTo (fd : Int) (es : List Effect) : List Packet :=
  es.filterMap fun
    | .send d q => if d = fd then some q else none
    | _ => none

/-! ## Both together -/

/-- The server, one of its clients and what is under way between the two. -/
structure Joint where
  world : World
  client : Client
  up : List Packet
  down : List Packet

/-- The connection an event is about. -/
def Event.fd : Event → Int
  | .accept fd => fd
  | .packet fd _ _ => fd

section System
variable (sha256 : Str → Digest) (rule : Client → Packet → Prop)
  (others : World → Event → Prop) (c : Int)

/-- A step of the client on `c`, of its thread on the server, or of another
connection.  What the client may send is up to `rule`, and what happens elsewhere
up to `others`.  There is no step after the client's EXIT, and none with which
`numRooms` would overflow. -/
inductive Joint.Step : Joint → Joint → Prop
  | send {w : World} {k : Client} {up down : List Packet} {p : Packet} (hp : rule k p) :
      Step ⟨w, k, up, down⟩ ⟨w, k, up ++ [p], down⟩
  | serve {w w' : World} {k : Client} {up down : List Packet} {p : Packet} {env : Env}
      {es : List Effect} (hopt : ¬ (p.options = EXIT ∨ p.options = 0))
      (hs : TBDChat.Step sha256 w (.packet c p env) w' es) (hint : w'.server.numRooms < 2 ^ 31) :
      Step ⟨w, k, p :: up, down⟩ ⟨w', k, up, down ++ sentTo c es⟩
  | other {w w' : World} {k : Client} {up down : List Packet} {e : Event} {es : List Effect}
      (he : e.fd ≠ c) (hother : others w e) (hs : TBDChat.Step sha256 w e w' es)
      (hint : w'.server.numRooms < 2 ^ 31) :
      Step ⟨w, k, up, down⟩ ⟨w', k, up, down ++ sentTo c es⟩
  | deliver {w : World} {k k' : Client} {up down : List Packet} {q : Packet}
      (hk : k.chatRX q = some k') : Step ⟨w, k, up, q :: down⟩ ⟨w, k', up, down⟩

/-- The client on `c` has just been logged in as `u`, and the reply is on its way. -/
structure Joint.Start (u : Str) (j : Joint) : Prop where
  login : ∃ w p env es, Reachable sha256 w ∧ w.conns c = .serving none ∧
    TBDChat.Step sha256 w (.packet c p env) j.world es ∧ j.down = sentTo c es
  session : j.world.conns c = .serving (some u)
  up : j.up = []
  int : j.world.server.numRooms < 2 ^ 31

end System

/-! ## What the client makes of what it receives -/

section Client
variable {k k' : Client} {q : Packet} {l l' : List Packet}

theorem Client.catchUp_append : k.catchUp (l ++ l') = (k.catchUp l).bind (·.catchUp l') :=
  List.foldlM_append

/-- Packets that are quiet do nothing. -/
theorem Client.catchUp_quiet (h : ∀ q ∈ l, q.Quiet) : k.catchUp l = some k := by
  induction l with
  | nil => rfl
  | cons q l ih =>
    obtain ⟨hpos, hcode⟩ := h q List.mem_cons_self
    have hone : k.chatRX q = some k := by
      simp only [List.mem_cons, List.not_mem_nil, or_false, not_or] at hcode
      rw [chatRX, serverResponse, if_neg hcode.1, if_neg hcode.2.1, if_neg hcode.2.2, if_pos hpos,
        ite_self]
    have hcons : k.catchUp (q :: l) = (k.chatRX q).bind (·.catchUp l) := rfl
    rw [hcons, hone, Option.bind_some]
    exact ih fun q hq => h q (List.mem_cons_of_mem _ hq)

variable {fd d : Int} {es es' : List Effect}

theorem mem_sentTo : q ∈ sentTo fd es ↔ Effect.send fd q ∈ es := by
  rw [sentTo, List.mem_filterMap]
  constructor
  · rintro ⟨e, he, hq⟩
    cases e with
    | send d q' =>
      by_cases hd : d = fd
      · simp only [if_pos hd, Option.some.injEq] at hq
        rwa [← hq, ← hd]
      · simp [hd] at hq
    | _ => simp at hq
  · intro h
    exact ⟨_, h, if_pos rfl⟩

theorem sentTo_append : sentTo fd (es ++ es') = sentTo fd es ++ sentTo fd es' :=
  List.filterMap_append

theorem sentTo_send : sentTo fd (.send fd q :: es) = q :: sentTo fd es := by
  simp [sentTo]

theorem Client.catchUp_sentTo (h : AllQuiet es) : k.catchUp (sentTo fd es) = some k :=
  catchUp_quiet fun _ hq => h _ (mem_sentTo.mp hq)

end Client
end TBDChat
