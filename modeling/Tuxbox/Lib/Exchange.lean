import Mathlib.Logic.Relation
import Mathlib.Algebra.GroupWithZero.Nat
import Mathlib.Algebra.BigOperators.Group.List.Basic

/-!
# Requests over a byte stream

A client sends a request in pieces and then reads a reply; the server receives
the request in pieces of its own and then replies. The stream keeps no piece
boundaries: bytes are in flight, and who wants more of them than there are waits.
-/

namespace Tuxbox.Exchange

/-- The sizes of the pieces. -/
structure Script where
  sent : List Nat
  received : List Nat
  replied : List Nat
  read : List Nat

/-- What is left to do for both, and the bytes in flight to the server and back. -/
structure Conn where
  toSend : List Nat
  toReceive : List Nat
  toReply : List Nat
  toRead : List Nat
  up : Nat
  down : Nat

inductive Step (c : Conn) : Conn → Prop
  | send (n : Nat) (ns : List Nat) (h : c.toSend = n :: ns) :
      Step c { c with toSend := ns, up := c.up + n }
  | receive (n : Nat) (ns : List Nat) (h : c.toReceive = n :: ns) (hup : n ≤ c.up) :
      Step c { c with toReceive := ns, up := c.up - n }
  | reply (n : Nat) (ns : List Nat) (hreceived : c.toReceive = []) (h : c.toReply = n :: ns) :
      Step c { c with toReply := ns, down := c.down + n }
  | read (n : Nat) (ns : List Nat) (hsent : c.toSend = []) (h : c.toRead = n :: ns)
      (hdown : n ≤ c.down) : Step c { c with toRead := ns, down := c.down - n }

abbrev Reaches := Relation.ReflTransGen Step

/-- Both wait or are done. -/
def Halted (c : Conn) : Prop := ∀ d, ¬Step c d

def Completed (c : Conn) : Prop :=
  c.toSend = [] ∧ c.toReceive = [] ∧ c.toReply = [] ∧ c.toRead = [] ∧ c.up = 0 ∧ c.down = 0

namespace Script

def start (s : Script) : Conn := ⟨s.sent, s.received, s.replied, s.read, 0, 0⟩

/-- In whatever order the two go on, they come to their ends and no byte is left over. -/
def Completes (s : Script) : Prop := ∀ c, Reaches s.start c → Halted c → Completed c

end Script

section
variable {s : Script} {c d : Conn}

/-- No byte is lost and none is made up. -/
structure Conserves (s : Script) (c : Conn) : Prop where
  up : c.up + s.received.sum + c.toSend.sum = s.sent.sum + c.toReceive.sum
  down : c.down + s.read.sum + c.toReply.sum = s.replied.sum + c.toRead.sum

theorem Conserves.step (h : Conserves s c) (hstep : Step c d) : Conserves s d := by
  have hup := h.up
  have hdown := h.down
  cases hstep with
  | send n ns hc | receive n ns hc hle =>
    rw [hc, List.sum_cons] at hup
    exact ⟨by simp only; omega, hdown⟩
  | reply n ns _ hc | read n ns _ hc hle =>
    rw [hc, List.sum_cons] at hdown
    exact ⟨hup, by simp only; omega⟩

theorem conserves (h : Reaches s.start c) : Conserves s c := by
  induction h with
  | refl => exact ⟨by simp [Script.start, Nat.add_comm], by simp [Script.start, Nat.add_comm]⟩
  | tail _ hstep ih => exact ih.step hstep

/-- The pieces left. -/
def Conn.pieces (c : Conn) : Nat :=
  c.toSend.length + c.toReceive.length + c.toReply.length + c.toRead.length

theorem Step.pieces_lt (h : Step c d) : d.pieces < c.pieces := by
  cases h with
  | send n ns hc | receive n ns hc _ | reply n ns _ hc | read n ns _ hc _ =>
     simp only [Conn.pieces, hc, List.length_cons]; omega

/-- Every connection comes to a halt. -/
theorem exists_halted (c : Conn) : ∃ d, Reaches c d ∧ Halted d := by
  induction hn : c.pieces using Nat.strongRecOn generalizing c with
  | ind n ih =>
    by_cases hhalt : Halted c
    · exact ⟨c, .refl, hhalt⟩
    · simp only [Halted, not_forall, not_not] at hhalt
      obtain ⟨d, hd⟩ := hhalt
      obtain ⟨e, hreach, he⟩ := ih d.pieces (hn ▸ hd.pieces_lt) d rfl
      exact ⟨e, hreach.head hd, he⟩

/-- Where the numbers of bytes agree nobody waits for ever. -/
theorem Conserves.completed (h : Conserves s c) (hhalt : Halted c)
    (hrequest : s.sent.sum = s.received.sum) (hreply : s.replied.sum = s.read.sum) :
    Completed c := by
  have hup := h.up
  have hdown := h.down
  have hsend : c.toSend = [] := by
    cases hc : c.toSend with
    | nil => rfl
    | cons n ns => exact absurd (.send n ns hc) (hhalt _)
  have hreceive : c.toReceive = [] := by
    cases hc : c.toReceive with
    | nil => rfl
    | cons n ns =>
      rw [hc, hsend, List.sum_cons, List.sum_nil] at hup
      exact absurd (.receive n ns hc (by omega)) (hhalt _)
  have hreplied : c.toReply = [] := by
    cases hc : c.toReply with
    | nil => rfl
    | cons n ns => exact absurd (.reply n ns hreceive hc) (hhalt _)
  have hread : c.toRead = [] := by
    cases hc : c.toRead with
    | nil => rfl
    | cons n ns =>
      rw [hc, hreplied, List.sum_cons, List.sum_nil] at hdown
      exact absurd (.read n ns hsend hc (by omega)) (hhalt _)
  rw [hsend, hreceive, List.sum_nil] at hup
  rw [hreplied, hread, List.sum_nil] at hdown
  exact ⟨hsend, hreceive, hreplied, hread, by omega, by omega⟩

/-- Both come to their ends exactly if as many bytes are sent as are received, and as many replied
as are read. -/
theorem completes_iff :
    s.Completes ↔ s.sent.sum = s.received.sum ∧ s.replied.sum = s.read.sum := by
  constructor
  · intro h
    obtain ⟨c, hreach, hhalt⟩ := exists_halted s.start
    obtain ⟨hsend, hreceive, hreply, hread, hup, hdown⟩ := h c hreach hhalt
    have hc := conserves hreach
    have hcup := hc.up
    have hcdown := hc.down
    rw [hsend, hreceive, hup, List.sum_nil] at hcup
    rw [hreply, hread, hdown, List.sum_nil] at hcdown
    omega
  · rintro ⟨hrequest, hreply⟩ c hreach hhalt
    exact (conserves hreach).completed hhalt hrequest hreply

end

end Tuxbox.Exchange
