import TBDChat.CleanReplies
import TBDChat.FreedRecords
import TBDChat.UserFile

/-!
# A registration as a whole

`register_user` puts the record into the list and into the file, and then leaves the rest to
`login`, whose answer it returns.  `login` takes a user whose real name is `ERROR` for one it
has not found, and so does the test of `register_user` that the name is free.
-/

namespace TBDChat
open Atomic Bytes

set_option maxRecDepth 8000

section Handling
variable {sha256 : Str → Digest} {env : Env} {p : Packet} {fd : Int} {s : Server}

/-- One that passes them is answered by `login`. -/
theorem register_accepted (hw : (words p.buf).length ≤ 15) (h : Registers p s) :
    ops.run (register_user sha256 env p fd) s =
      (ops.run (login sha256 env (relogin p) fd) (s.enrol (newcomer sha256 env p fd))).prepend
        (fileEffects (s.enrol (newcomer sha256 env p fd)) env.fd) := by
  have hpass : arg (words p.buf) 2 = arg (words p.buf) 3 := by
    have hall := h.pass
    simp only [acceptsPassword, Bool.and_eq_true, decide_eq_true_eq] at hall
    exact hall.1.1
  rw [run_register_user, if_neg (Nat.not_lt_of_le hw), if_neg (Nat.not_le_of_lt h.words),
    if_neg (by rw [h.name]; decide), if_neg (by simp [h.free, h.server, hpass]),
    if_neg (by rw [h.pass]; decide)]
  rfl

end Handling

namespace Sample

end Sample

end TBDChat
