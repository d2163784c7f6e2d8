import TBDChat.Execution
import TBDChat.Lib.BlockStream

/-!
# Packets on a TCP stream

Both receive loops call `recv` for `sizeof(packet)` bytes and take whatever it
returns for a packet: they test its result against zero, not against the size.
A packet is `sizeof(packet)` bytes here, as it lies in memory, and `recv` returns
the next bytes of the stream, one or more and at most so many.

When the loops end is part of the code as well: `client_receive` returns after an
EXIT packet and, once logged in, after one with option 0; `chatRX` breaks off
after an option that is not positive, and the handler of EXIT closes the
descriptor, so nothing of the stream is received after that.
-/

namespace TBDChat
open Atomic Bytes BlockStream

set_option maxRecDepth 8000

/-- `sizeof(packet)`: the number of bytes of the fields, rounded up to a multiple
of 8. -/
def sizeofPacket : Nat := 272

/-- The fields of a packet, from its bytes. -/
def Packet.ofMem (bs : List UInt8) : Packet where
  timestamp := (ofLe (bs.take 8) + 2 ^ 63 : Int) % 2 ^ 64 - 2 ^ 63
  buf := cstr (bs.drop 8)
  username := cstr (bs.drop 136)
  realname := cstr (bs.drop 200)
  options := wrap32 (ofLe ((bs.drop 264).take 4))

/-- `client_receive` returns after the last of these packets.  What it does
depends on `logged_in`, and that on all the packets before. -/
def clientReceiveReturns (logged_in : List (List UInt8) → Bool) (seen : List (List UInt8)) :
    Bool :=
  match seen.getLast? with
  | none => false
  | some in_pkt =>
    if logged_in seen.dropLast then
      (Packet.ofMem in_pkt).options = EXIT || (Packet.ofMem in_pkt).options = 0
    else (Packet.ofMem in_pkt).options = EXIT

/-- `chatRX` receives no more after the last of these packets. -/
def chatRXReturns (seen : List (List UInt8)) : Bool :=
  match seen.getLast? with
  | none => false
  | some rx_pkt => (Packet.ofMem rx_pkt).options ≤ 0 || (Packet.ofMem rx_pkt).options = EXIT

/-- The packets that `client_receive` handles, where `in_pkt` holds `buf` before
the first `recv` and the `recv`s return `chunks`. -/
def clientReceiveLoop (logged_in : List (List UInt8) → Bool) (buf : List UInt8)
    (chunks : List (List UInt8)) : List (List UInt8) :=
  receive (List.replicate sizeofPacket 0) (clientReceiveReturns logged_in) [] buf chunks

/-- The packets that `chatRX` handles. -/
def chatRX (buf : List UInt8) (chunks : List (List UInt8)) : List (List UInt8) :=
  receive (List.replicate sizeofPacket 0) chatRXReturns [] buf chunks

section Returns
variable {sha256 : Str → Digest} {env : Env} {p : Packet} {fd : Int} {s s' : Server}
  {next : Next} {es : List Effect}

/-- **When `client_receive` returns**: after EXIT, and once logged in after
option 0. -/
theorem client_receive_done {session : Option Str}
    (h : ops.run (client_receive sha256 env session p fd) s = .ok (next, s', es)) :
    next = .done ↔ p.options = EXIT ∨ session.isSome ∧ p.options = 0 := by
  cases session with
  | none =>
    have hgo {session : Option Str} (hne : p.options ≠ EXIT) :
        Next.receive session = .done ↔ p.options = EXIT ∨ (none : Option Str).isSome ∧
          p.options = 0 := by simp [hne]
    rcases ops.run_ite_eq h with ⟨hopt, h⟩ | ⟨-, h⟩
    · obtain ⟨b, -, rfl⟩ := ops.run_bind_pure_eq h
      exact hgo (by rw [hopt]; decide)
    rcases ops.run_ite_eq h with ⟨hopt, h⟩ | ⟨-, h⟩
    · obtain ⟨b, -, rfl⟩ := ops.run_bind_pure_eq h
      exact hgo (by rw [hopt]; decide)
    rcases ops.run_ite_eq h with ⟨hopt, h⟩ | ⟨hopt, h⟩
    · obtain ⟨b, -, rfl⟩ := ops.run_bind_pure_eq h
      simp [hopt]
    · obtain ⟨b, -, rfl⟩ := ops.run_bind_pure_eq h
      exact hgo hopt
  | some name =>
    rcases ops.run_ite_eq h with ⟨-, h⟩ | ⟨hopt, h⟩
    · rcases ops.run_ite_eq h with ⟨hexit, h⟩ | ⟨hexit, h⟩
      · obtain ⟨b, -, rfl⟩ := ops.run_bind_pure_eq h
        simpa using hexit
      · obtain ⟨b, -, rfl⟩ := ops.run_bind_pure_eq h
        simpa using hexit
    · -- a chat packet has an option of 1000 or more
      obtain ⟨b, -, rfl⟩ := ops.run_bind_pure_eq h
      have hexit : p.options ≠ EXIT := fun he => hopt (by rw [he]; decide)
      have hzero : p.options ≠ 0 := fun he => hopt (by rw [he]; decide)
      simp [hexit, hzero]

/-- The loop ends where its handler says so. -/
theorem clientReceiveReturns_iff {session : Option Str} {seen : List (List UInt8)}
    {in_pkt : List UInt8} {logged_in : List (List UInt8) → Bool}
    (hsession : session.isSome = logged_in seen)
    (h : ops.run (client_receive sha256 env session (Packet.ofMem in_pkt) fd) s =
      .ok (next, s', es)) :
    clientReceiveReturns logged_in (seen ++ [in_pkt]) = true ↔ next = .done := by
  rw [client_receive_done h, hsession, clientReceiveReturns]
  simp only [List.getLast?_concat, List.dropLast_concat]
  cases logged_in seen with
  | true => simp
  | false => simp

end Returns

/-- **When the packets handled are the packets sent**, whatever the buffer held
before.  For the server as for the client: the loop does not end before the last
of them; and either each `recv` returned a whole packet, or the last packet ends
the loop and there are only zero bytes behind the first `recv` that was cut
short, which is not the first of all. -/
theorem framing_iff {sent chunks : List (List UInt8)} (h : Arrives sizeofPacket sent chunks)
    (logged_in : List (List UInt8) → Bool) :
    ((∀ buf : List UInt8, buf.length = sizeofPacket →
        clientReceiveLoop logged_in buf chunks = sent) ↔
      Unended (clientReceiveReturns logged_in) sent ∧
        ((∀ c ∈ chunks, c.length = sizeofPacket) ∨
          clientReceiveReturns logged_in sent = true ∧ CutBeforeBlanks sizeofPacket 0 chunks)) ∧
    ((∀ buf : List UInt8, buf.length = sizeofPacket → chatRX buf chunks = sent) ↔
      Unended chatRXReturns sent ∧
        ((∀ c ∈ chunks, c.length = sizeofPacket) ∨
          chatRXReturns sent = true ∧ CutBeforeBlanks sizeofPacket 0 chunks)) := by
  have : Nontrivial UInt8 := ⟨0, 1, by decide⟩
  have hk : 0 < sizeofPacket := by decide
  exact ⟨receive_eq_sent_iff hk h, receive_eq_sent_iff hk h⟩

namespace Sample

/-- A packet with nothing in it but an option. -/
def block (option : UInt8) : List UInt8 :=
  List.replicate 264 0 ++ option :: List.replicate 7 0

end Sample

/-- A request and an EXIT, each received whole. -/
theorem framing_iff_whole :
    clientReceiveLoop (fun _ => true) (List.replicate sizeofPacket 255)
      [Sample.block 12, Sample.block 5] = [Sample.block 12, Sample.block 5] := by
  have hlen : ∀ c ∈ [Sample.block 12, Sample.block 5], c.length = sizeofPacket := by
    decide
  have harrives : Arrives sizeofPacket [Sample.block 12, Sample.block 5]
      [Sample.block 12, Sample.block 5] :=
    ⟨hlen, fun c hc => by rw [hlen c hc]; decide, rfl⟩
  refine (framing_iff harrives fun _ => true).1.mpr ⟨?_, .inl hlen⟩ _ (List.length_replicate ..)
  rw [unended_cons, unended_cons]
  refine ⟨fun _ => by decide, fun h => absurd rfl h, fun t ht hne => ?_⟩
  exact absurd (List.prefix_nil.mp ht) hne

/-- One packet in two pieces: both loops take the first piece for a packet with
option 0. -/
theorem packet_split : ¬ ∀ (sent chunks : List (List UInt8))
    (logged_in : List (List UInt8) → Bool) (buf : List UInt8), Arrives sizeofPacket sent chunks →
    buf.length = sizeofPacket →
    clientReceiveLoop logged_in buf chunks = sent ∧ chatRX buf chunks = sent := by
  intro h
  have harrives : Arrives sizeofPacket [Sample.block 12]
      [(Sample.block 12).take 100, (Sample.block 12).drop 100] :=
    ⟨by decide, by decide, by decide⟩
  have hread := (h _ _ (fun _ => true) (List.replicate sizeofPacket 0) harrives
    (List.length_replicate ..)).1
  exact absurd hread (by decide)

end TBDChat
