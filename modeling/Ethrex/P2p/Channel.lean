/-
# `Ethrex.P2p.Channel` — an established connection as two FIFO channels

Two peers hold an `Established` session each and are joined by a byte
stream in each direction.  `RLPxConnection::send` is `frame::write` on the
sender's session, appending the frame to the stream towards the other peer;
`RLPxConnection::receive` is `frame::read` on the receiver's session and the
stream towards it.  `Link.run` performs any interleaving of the two in
either direction; a read that finds its stream empty fails as `read_exact`
does when the peer has closed it.

`Frames` says which payloads a stream carries: the bytes are the frames of
those payloads written from the reader's ingress half on, and they end at
the writer's present egress half.  `Link.Carries` is that in both
directions at once, and it is the simulation relation between the link and
two abstract queues (`Fifo`): every step of the link is the step of the
queues (`Link.step_refines`), so every run is (`Link.run_refines`).  The
interleaving needs the two halves of a session to be apart: a write moves
only the writer's egress half and a read only the reader's ingress half.
Payloads are shorter than `2 ^ 24` bytes; a longer one is not read back
(`read_write_of_length_ge`).
-/
import Ethrex.P2p.Frame
import Ethrex.Lib.Fifo

namespace Ethrex.P2p

open Ethrex.Rlp

section Frames

variable (crypto : FrameCrypto)

/-- `Frames crypto h s q h'`: the bytes `s` are the frames of the payloads
`q`, written from the egress half `h` on, and the writer is left at `h'`. -/
inductive Frames : Half → Bytes → List Bytes → Half → Prop
  | nil (h : Half) : Frames h [] [] h
  | cons {h h' : Half} {w : Established} {m rest : Bytes} {q : List Bytes} :
      w.egress = h → m.length < 2 ^ 24 → Frames (write crypto m w).2.egress rest q h' →
      Frames h ((write crypto m w).1 ++ rest) (m :: q) h'

variable {crypto}

theorem Frames.nil_inv {h h' : Half} {s : Bytes} (hf : Frames crypto h s [] h') : s = [] ∧ h' = h := by
  cases hf with
  | nil => exact ⟨rfl, rfl⟩

theorem Frames.cons_inv {h h' : Half} {s m : Bytes} {q : List Bytes} (hf : Frames crypto h s (m :: q) h') :
    ∃ w rest, w.egress = h ∧ s = (write crypto m w).1 ++ rest ∧ m.length < 2 ^ 24 ∧
      Frames crypto (write crypto m w).2.egress rest q h' := by
  cases hf with
  | cons hw hm hrest => exact ⟨_, _, hw, rfl, hm, hrest⟩

theorem Frames.snoc {h h' : Half} {s : Bytes} {q : List Bytes} (hf : Frames crypto h s q h')
    {w : Established} (hw : w.egress = h') {m : Bytes} (hm : m.length < 2 ^ 24) :
    Frames crypto h (s ++ (write crypto m w).1) (q ++ [m]) (write crypto m w).2.egress := by
  induction hf with
  | nil h =>
    have hlast := Frames.cons hw hm (Frames.nil (write crypto m w).2.egress)
    simpa using hlast
  | cons hw₀ hm₀ _ ih =>
    rw [List.append_assoc]
    exact Frames.cons hw₀ hm₀ (ih hw)

theorem Frames.read_cons {r : Established} {s m : Bytes} {q : List Bytes} {h' : Half}
    (hf : Frames crypto r.ingress s (m :: q) h') :
    ∃ r' rest, read crypto r s = .ok (m, r', rest) ∧ r'.egress = r.egress ∧
      Frames crypto r'.ingress rest q h' := by
  -- the stream is rewritten, not substituted: substituting it unfolds `write`
  obtain ⟨w, rest, hw, hs, hm, hrest⟩ := hf.cons_inv
  have hkey : (write crypto m w).2.egress.macKey = r.macKey := by
    have := congrArg Half.macKey hw
    simpa [Established.egress, Established.ingress] using this
  refine ⟨r.setIngress (write crypto m w).2.egress, rest, ?_, rfl, ?_⟩
  · rw [hs]
    exact read_write crypto hw hm rest
  · rwa [Established.setIngress_ingress hkey]

theorem read_nil (state : Established) :
    read crypto state [] = .err (.connectionError "Connection dropped") := rfl

end Frames

/-- The two ends of a connection. -/
inductive Side where
  | initiator
  | recipient
  deriving DecidableEq

/-- The peer at the other end. -/
def Side.other : Side → Side
  | .initiator => .recipient
  | .recipient => .initiator

@[simp] theorem Side.other_other (i : Side) : i.other.other = i := by
  cases i <;> rfl

@[simp] theorem Side.other_ne (i : Side) : i.other ≠ i := by
  cases i <;> decide

theorem Side.eq_or_eq_other (i j : Side) : j = i ∨ j = i.other := by
  cases i <;> cases j <;> decide

/-- A connection: each side's session, and the bytes on their way to each
side, written by the other and not yet read. -/
structure Link where
  peer : Side → Established
  inFlight : Side → Bytes

/-- What a side does: send a payload, or receive the next one. -/
inductive Action where
  | write (side : Side) (m : Bytes)
  | read (side : Side)

/-- The queue operation an action is: a write sends to the other side. -/
def Action.op : Action → Fifo.Op Side Bytes
  | .write i m => .send i.other m
  | .read i => .recv i

section Link

variable (crypto : FrameCrypto)

/-- One action: `RLPxConnection::send` or `RLPxConnection::receive` at a side. -/
def Link.step (l : Link) : Action → Outcome RLPxError (Link × List (Side × Bytes))
  | .write i m =>
    .ok (⟨Function.update l.peer i (write crypto m (l.peer i)).2,
      Function.update l.inFlight i.other (l.inFlight i.other ++ (write crypto m (l.peer i)).1)⟩, [])
  | .read i => do
    let (m, st, rest) ← read crypto (l.peer i) (l.inFlight i)
    pure (⟨Function.update l.peer i st, Function.update l.inFlight i rest⟩, [(i, m)])

/-- The actions in order, with every payload received and the side that
received it. -/
def Link.run (l : Link) : List Action → Outcome RLPxError (Link × List (Side × Bytes))
  | [] => .ok (l, [])
  | a :: acts => do
    let (l₁, out₁) ← l.step crypto a
    let (l₂, out₂) ← l₁.run acts
    pure (l₂, out₁ ++ out₂)

/-- The streams carry the queues `q`: the stream to each side is the frames
of its queue, from that side's ingress half to the other side's egress half. -/
def Link.Carries (l : Link) (q : Side → List Bytes) : Prop :=
  ∀ i, Frames crypto (l.peer i).ingress (l.inFlight i) (q i) (l.peer i.other).egress

/-- The link's outcome is the queues' outcome: the same output with streams
that carry the queues after it, or, where a queue was empty, the error of a
read from an empty stream. -/
def Simulates : Outcome RLPxError (Link × List (Side × Bytes)) →
    Option ((Side → List Bytes) × List (Side × Bytes)) → Prop
  | o, some (q', out) => ∃ l', o = .ok (l', out) ∧ l'.Carries crypto q'
  | o, none => o = .err (.connectionError "Connection dropped")

variable {crypto}

theorem Link.carries_write {l : Link} {q : Side → List Bytes} (hl : l.Carries crypto q) (i : Side)
    {m : Bytes} (hm : m.length < 2 ^ 24) :
    Link.Carries crypto ⟨Function.update l.peer i (write crypto m (l.peer i)).2,
      Function.update l.inFlight i.other (l.inFlight i.other ++ (write crypto m (l.peer i)).1)⟩
      (Function.update q i.other (q i.other ++ [m])) := by
  intro j
  rcases Side.eq_or_eq_other i j with rfl | rfl
  · -- the writer's own incoming stream: its ingress half is untouched
    have hj := hl j
    simp only [Function.update_self, Function.update_of_ne (Side.other_ne j).symm,
      Function.update_of_ne (Side.other_ne j), write_ingress]
    exact hj
  · -- the stream to the other side gets the new frame
    have hj := (hl i.other).snoc (w := l.peer i) (by rw [Side.other_other]) hm
    simpa [Function.update_of_ne (Side.other_ne i)] using hj

theorem Link.carries_read {l : Link} {q : Side → List Bytes} (hl : l.Carries crypto q) {i : Side}
    {m : Bytes} {rest : List Bytes} (hq : q i = m :: rest) :
    ∃ st restBytes, read crypto (l.peer i) (l.inFlight i) = .ok (m, st, restBytes) ∧
      Link.Carries crypto ⟨Function.update l.peer i st, Function.update l.inFlight i restBytes⟩
        (Function.update q i rest) := by
  have hi := hl i
  rw [hq] at hi
  obtain ⟨st, restBytes, hread, hegress, hrest⟩ := hi.read_cons
  refine ⟨st, restBytes, hread, ?_⟩
  intro j
  rcases Side.eq_or_eq_other i j with rfl | rfl
  · simpa [Function.update_of_ne (Side.other_ne j)] using hrest
  · -- the other direction: only the reader's egress half shows in it, and it stays
    have hj := hl i.other
    simpa [Function.update_of_ne (Side.other_ne i), hegress] using hj

/-- **A step of the link is a step of the queues.** -/
theorem Link.step_refines {l : Link} {q : Side → List Bytes} (hl : l.Carries crypto q) {a : Action}
    (ha : ∀ i m, a = .write i m → m.length < 2 ^ 24) :
    Simulates crypto (l.step crypto a) (Fifo.step q a.op) := by
  cases a with
  | write i m =>
    exact ⟨_, rfl, Link.carries_write hl i (ha i m rfl)⟩
  | read i =>
    simp only [Action.op, Fifo.step]
    split
    case h_1 hq =>
      -- an empty queue is an empty stream
      have hi := hl i
      rw [hq] at hi
      have hempty := hi.nil_inv.1
      simp [Simulates, Link.step, hempty, read_nil]
    case h_2 m rest hq =>
      obtain ⟨st, restBytes, hread, hcarries⟩ := Link.carries_read hl hq
      exact ⟨_, by simp [Link.step, hread], hcarries⟩

/-- **Every run of the link is a run of the queues.** -/
theorem Link.run_refines {acts : List Action} (hacts : ∀ i m, Action.write i m ∈ acts → m.length < 2 ^ 24)
    {l : Link} {q : Side → List Bytes} (hl : l.Carries crypto q) :
    Simulates crypto (l.run crypto acts) (Fifo.run q (acts.map Action.op)) := by
  -- induction on the actions, from any link that carries any queues
  induction acts generalizing l q with
  | nil => exact ⟨l, rfl, hl⟩
  | cons a acts ih =>
    have hstep := Link.step_refines hl (a := a) fun i m h => hacts i m (by simp [h])
    have hacts' : ∀ i m, Action.write i m ∈ acts → m.length < 2 ^ 24 :=
      fun i m h => hacts i m (by simp [h])
    simp only [List.map_cons, Fifo.run, Link.run]
    cases hs : Fifo.step q a.op with
    | none =>
      -- the step fails, and the run with it
      rw [hs] at hstep
      simp only [Simulates] at hstep ⊢
      simp [hstep]
    | some r =>
      obtain ⟨q₁, out₁⟩ := r
      rw [hs] at hstep
      obtain ⟨l₁, hl₁, hc₁⟩ := hstep
      have hrun := ih hacts' hc₁
      dsimp only
      cases hr : Fifo.run q₁ (acts.map Action.op) with
      | none =>
        rw [hr] at hrun
        simp only [Simulates] at hrun ⊢
        simp [hl₁, hrun]
      | some r₂ =>
        obtain ⟨q₂, out₂⟩ := r₂
        rw [hr] at hrun
        obtain ⟨l₂, hl₂, hc₂⟩ := hrun
        exact ⟨l₂, by simp [hl₁, hl₂], hc₂⟩

/-- **The connection is two FIFO channels.**  From sessions whose halves
mirror each other and nothing in flight, every interleaving of sends and
receives of payloads shorter than `2 ^ 24` bytes runs as the two queues do.
Where a receive finds its queue empty, the run stops with the error of an
empty stream, and only there.  Otherwise it returns the queues' output, its
streams carry what is still queued, and each side has delivered, in order, a
prefix of the payloads the other side sent.  No run panics. -/
theorem Link.run_fifo {l : Link}
    (hfresh : ∀ i, (l.peer i.other).egress = (l.peer i).ingress ∧ l.inFlight i = [])
    {acts : List Action} (hacts : ∀ i m, Action.write i m ∈ acts → m.length < 2 ^ 24) :
    (Fifo.run (fun _ => []) (acts.map Action.op) = none ∧
        l.run crypto acts = .err (.connectionError "Connection dropped")) ∨
      ∃ q' l' out, Fifo.run (fun _ => []) (acts.map Action.op) = some (q', out) ∧
        l.run crypto acts = .ok (l', out) ∧ l'.Carries crypto q' ∧
        ∀ i, Fifo.received i out <+: Fifo.sent i (acts.map Action.op) := by
  have hl : l.Carries crypto fun _ => [] := by
    intro i
    obtain ⟨hmirror, hempty⟩ := hfresh i
    rw [hempty, hmirror]
    exact Frames.nil _
  have hrun := Link.run_refines hacts hl
  cases hr : Fifo.run (fun _ => []) (acts.map Action.op) with
  | none =>
    rw [hr] at hrun
    exact Or.inl ⟨rfl, hrun⟩
  | some r =>
    obtain ⟨q', out⟩ := r
    rw [hr] at hrun
    obtain ⟨l', hl', hc'⟩ := hrun
    exact Or.inr ⟨q', l', out, rfl, hl', hc', Fifo.run_received_prefix (fun _ => rfl) hr⟩

end Link

/-- Both ends under the zero key, nothing in flight. -/
def zeroLink : Link := ⟨fun _ => zeroSession, fun _ => []⟩

theorem run_fifo_one_frame :
    (∀ i, (zeroLink.peer i.other).egress = (zeroLink.peer i).ingress ∧ zeroLink.inFlight i = []) ∧
      (∀ i m, Action.write i m ∈ [.write .initiator [1, 2, 3], .read .recipient] → m.length < 2 ^ 24) ∧
      ((Fifo.run (fun _ => []) ([.write .initiator [1, 2, 3], .read .recipient].map Action.op) = none ∧
          zeroLink.run zeroCrypto [.write .initiator [1, 2, 3], .read .recipient] =
            .err (.connectionError "Connection dropped")) ∨
        ∃ q' l' out, Fifo.run (fun _ => []) ([.write .initiator [1, 2, 3], .read .recipient].map Action.op) =
            some (q', out) ∧
          zeroLink.run zeroCrypto [.write .initiator [1, 2, 3], .read .recipient] = .ok (l', out) ∧
          l'.Carries zeroCrypto q' ∧
          ∀ i, Fifo.received i out <+:
            Fifo.sent i ([.write .initiator [1, 2, 3], .read .recipient].map Action.op)) := by
  have hfresh : ∀ i, (zeroLink.peer i.other).egress = (zeroLink.peer i).ingress ∧
      zeroLink.inFlight i = [] := fun _ => ⟨rfl, rfl⟩
  have hacts : ∀ i m, Action.write i m ∈ [.write .initiator [1, 2, 3], .read .recipient] →
      m.length < 2 ^ 24 := by
    intro i m h
    simp only [List.mem_cons, Action.write.injEq, reduceCtorEq, List.not_mem_nil, or_false] at h
    rw [h.2]
    decide
  exact ⟨hfresh, hacts, Link.run_fifo hfresh hacts⟩

end Ethrex.P2p
