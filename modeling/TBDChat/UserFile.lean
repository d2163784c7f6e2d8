import TBDChat.Membership
import TBDChat.StoredNames

/-!
# The user file keeps the registrations

`writeUserFile` writes over the file from its start and never cuts it, and
`readUserFile` takes the number of records from the file's size.  The two fit
together because the list of registered users never gets shorter: it starts with
as many records as the file has room for, so what is written always reaches to
the end of the last whole block of the file.  A partial record at the end is
overwritten by the first new one.

Handlers that write a record without writing the file write to `sock` and
`roomID` alone, and a restart resets those.
-/

namespace TBDChat
open Atomic Bytes

set_option maxRecDepth 8000

namespace User

/-- The three arrays come back from memory. -/
theorem chars_ofMem (u : User) : (ofMem u.mem).chars = u.chars := by
  calc pad 192 u.mem = u.mem.take 192 := by
        rw [pad, length_mem, List.replicate_zero, List.append_nil]
    _ = u.chars := by
        rw [take_mem (Nat.le_refl _), List.take_of_length_le (Nat.le_of_eq u.size)]

end User

namespace LinkedList
variable {users : List User} {file : Option (List UInt8)}

theorem length_readUserFile (file : Option (List UInt8)) :
    (readUserFile file).length = (file.getD []).length / 208 := by
  rw [readUserFile, List.length_map, length_blocks]

theorem roomID_readUserFile {u : User} (h : u ∈ readUserFile file) : u.roomID = -1 := by
  obtain ⟨bs, -, rfl⟩ := List.mem_map.mp h
  rfl

/-- **What is written comes back**, if it is at least as much as is there. -/
theorem readUserFile_writeUserFile (h : (readUserFile file).length ≤ users.length) :
    (readUserFile (writeUserFile users file)).map User.chars = users.map User.chars := by
  have hblocks : blocks 208 (overwrite (users.map User.mem).flatten (file.getD [])) =
      users.map User.mem := by
    refine blocks_overwrite (by decide) (fun bs hbs => ?_) ?_
    · obtain ⟨u, -, rfl⟩ := List.mem_map.mp hbs
      exact User.length_mem u
    · rwa [List.length_map, ← length_readUserFile]
  rw [readUserFile, writeUserFile, Option.getD_some, hblocks, List.map_map, List.map_map]
  exact List.map_congr_left fun u _ => User.chars_ofMem u

end LinkedList

namespace Server
variable {s s' : Server}

/-- The file holds the records of the registered users, in order. -/
def Saved (s : Server) : Prop :=
  (LinkedList.readUserFile s.users_file).map User.chars = s.registered.map User.chars

theorem Saved.length (h : s.Saved) :
    (LinkedList.readUserFile s.users_file).length = s.registered_users_list.length := by
  simpa [registered] using congrArg List.length h

/-- A list of users that is no shorter than the saved one is saved by writing it. -/
theorem Saved.write (h : s.Saved) (hfile : s'.users_file = s.users_file)
    (hlen : s.registered_users_list.length ≤ s'.registered_users_list.length) :
    s'.writeUserFile.Saved := by
  refine LinkedList.readUserFile_writeUserFile ?_
  rw [hfile, h.length, registered, List.length_map]
  exact hlen

/-- Changes of `sock` and `roomID` do not concern the file. -/
theorem Saved.keep (h : s.Saved) (hfile : s'.users_file = s.users_file)
    (hreg : s'.registered_users_list = s.registered_users_list)
    (hchars : ∀ a, (s'.heap a).chars = (s.heap a).chars) : s'.Saved := by
  rw [Saved, hfile, h, registered, registered, hreg, List.map_map, List.map_map]
  exact List.map_congr_left fun a _ => (hchars a).symm

end Server

/-- **Every change keeps the file and the list in agreement.** -/
theorem Change.saved {who : Str} {s s' : Server} (hi : s.Saved) (h : Change who s s') :
    s'.Saved := by
  cases h with
  | enrol u =>
    -- the list has grown by at most one, and the file is written from its start
    refine @Server.Saved.write _ ((s.malloc u).insertUser .registered s.fresh) hi rfl ?_
    rcases s.enrol_registered u with h | h
    · exact Nat.le_of_eq (congrArg List.length h).symm
    · exact (congrArg List.length h).symm ▸ by simp
  | free => exact hi
  | signIn => exact hi.keep rfl rfl (s.signIn_congr (fun _ _ => rfl) (fun _ _ => rfl) _ _ _)
  | @openRoom fd name =>
    obtain ⟨rooms, n, heq⟩ := s.openRoom_eq fd name
    rw [heq]
    exact hi
  | move =>
    refine hi.keep ?_ rfl (s.move_congr (fun _ _ => rfl) _ _ _ _)
    simp [Server.move, Server.insertUser, Server.removeUser, Server.modify]
  | rename => exact hi.write rfl (Nat.le_refl _)
  | setPassword => exact hi.write rfl (Nat.le_refl _)
  | signOut => exact hi.keep rfl rfl fun a => by rw [Server.signOut_heap]

theorem boot_saved (file : Option (List UInt8)) (fd : Int) : (Server.boot file fd).Saved :=
  congrArg (List.map User.chars) (boot_registered file fd).symm

section Reachable
variable {sha256 : Str → Digest} {w : World}

/-- **Registrations survive a restart**: reading the file in any reachable state
gives the registered users, in order, none missing and none more, each with the
three arrays of its record, and with its room number reset.  A record that is freed
is taken to keep its bytes (`Server.free`). -/
theorem registrations_survive (hw : Reachable sha256 w) :
    List.Forall₂ (fun u v =>
        (u.chars = v.chars ∧
          (v.username.length < 192 → u.username = v.username) ∧
          (v.real_name.length < 128 → u.real_name = v.real_name) ∧
          u.password = v.password) ∧
        u.roomID = -1)
      (LinkedList.readUserFile w.server.users_file) w.server.registered := by
  have hsaved : w.server.Saved := hw.induct boot_saved fun _ _ _ hi hc => hc.saved hi
  rw [List.forall₂_iff_get]
  refine ⟨by simpa using congrArg List.length hsaved, fun i hi hi' => ?_⟩
  have hchars : ((LinkedList.readUserFile w.server.users_file).get ⟨i, hi⟩).chars =
      (w.server.registered.get ⟨i, hi'⟩).chars := by
    have hget := congrArg (fun l => l[i]?) hsaved
    simpa [hi, hi'] using hget
  exact ⟨⟨hchars, User.username_of_chars hchars, User.real_name_of_chars hchars,
    congrArg (List.drop 128) hchars⟩, LinkedList.roomID_readUserFile (List.get_mem _ _)⟩

/-- Alice has registered and changed her name. -/
theorem registrations_survive_alice :
    let s := (Sample.world (Sample.enter 4 "alice" ++
      [Sample.packet 4 SETNAME "alice" "Alice B"])).server
    s.registered.map User.real_name = [str "Alice B"] ∧
    (LinkedList.readUserFile s.users_file).length = 1 := by
  refine ⟨by decide, ?_⟩
  rw [(registrations_survive (Sample.reachable _)).length_eq]
  decide

end Reachable
end TBDChat
