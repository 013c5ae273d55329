/-
# `Lib.Fifo` — first-in first-out channels

A family of queues indexed by `ι`.  `send i a` appends `a` to queue `i`;
`recv i` takes the oldest element of queue `i`, and fails on an empty
queue.  `run` performs a list of operations in order and collects what the
receives returned, each with its channel.

The law of the channels is `run_received_append`: on every channel, what
was received followed by what is still queued is what was queued at the
start followed by everything sent to it, in order.  From an empty start,
what a channel delivered is a prefix of what was sent to it
(`run_received_prefix`): the `k`-th receive returns the `k`-th send.
-/
import Mathlib.Logic.Function.Basic
import Mathlib.Data.List.Infix

namespace Fifo

/-- An operation on the channels. -/
inductive Op (ι α : Type) where
  | send (i : ι) (a : α)
  | recv (i : ι)

variable {ι α : Type} [DecidableEq ι]

/-- One operation: the queues after it, and what it received. -/
def step (q : ι → List α) : Op ι α → Option ((ι → List α) × List (ι × α))
  | .send i a => some (Function.update q i (q i ++ [a]), [])
  | .recv i =>
    match q i with
    | [] => none
    | a :: rest => some (Function.update q i rest, [(i, a)])

/-- The operations in order; `none` when a receive finds its queue empty. -/
def run (q : ι → List α) : List (Op ι α) → Option ((ι → List α) × List (ι × α))
  | [] => some (q, [])
  | op :: ops =>
    match step q op with
    | none => none
    | some (q₁, out₁) =>
      match run q₁ ops with
      | none => none
      | some (q₂, out₂) => some (q₂, out₁ ++ out₂)

/-- What the operations send on channel `i`, in order. -/
def sent (i : ι) : List (Op ι α) → List α
  | [] => []
  | .send j a :: ops => if j = i then a :: sent i ops else sent i ops
  | .recv _ :: ops => sent i ops

/-- What was received on channel `i`, in order. -/
def received (i : ι) (out : List (ι × α)) : List α :=
  out.filterMap fun p => if p.1 = i then some p.2 else none

@[simp] theorem received_nil (i : ι) : received i ([] : List (ι × α)) = [] := rfl

@[simp] theorem received_append (i : ι) (out₁ out₂ : List (ι × α)) :
    received i (out₁ ++ out₂) = received i out₁ ++ received i out₂ :=
  List.filterMap_append

theorem step_received_append {q q' : ι → List α} {op : Op ι α} {out : List (ι × α)}
    (h : step q op = some (q', out)) (i : ι) :
    received i out ++ q' i = q i ++ sent i [op] := by
  cases op with
  | send j a =>
    simp only [step, Option.some.injEq, Prod.mk.injEq] at h
    obtain ⟨rfl, rfl⟩ := h
    by_cases hj : j = i
    · subst hj
      simp [sent]
    · simp [sent, hj, Function.update_of_ne (Ne.symm hj)]
  | recv j =>
    simp only [step] at h
    split at h
    · exact (nomatch h)
    · rename_i a rest hq
      simp only [Option.some.injEq, Prod.mk.injEq] at h
      obtain ⟨rfl, rfl⟩ := h
      by_cases hj : j = i
      · subst hj
        simp [received, sent, hq]
      · simp [received, sent, hj, Function.update_of_ne (Ne.symm hj)]

theorem run_cons_eq_some {q q₂ : ι → List α} {op : Op ι α} {ops : List (Op ι α)}
    {out : List (ι × α)} (h : run q (op :: ops) = some (q₂, out)) :
    ∃ q₁ out₁ out₂, step q op = some (q₁, out₁) ∧ run q₁ ops = some (q₂, out₂) ∧
      out = out₁ ++ out₂ := by
  simp only [run] at h
  split at h
  · exact (nomatch h)
  · rename_i q₁ out₁ hstep
    split at h
    · exact (nomatch h)
    · rename_i q₂' out₂ hrun
      simp only [Option.some.injEq, Prod.mk.injEq] at h
      obtain ⟨rfl, rfl⟩ := h
      exact ⟨q₁, out₁, out₂, hstep, hrun, rfl⟩

theorem sent_cons (i : ι) (op : Op ι α) (ops : List (Op ι α)) :
    sent i (op :: ops) = sent i [op] ++ sent i ops := by
  cases op with
  | send j a => by_cases hj : j = i <;> simp [sent, hj]
  | recv j => simp [sent]

/-- **The FIFO law.**  On every channel, the received values followed by
the queue left are the initial queue followed by the values sent. -/
theorem run_received_append {q q' : ι → List α} {ops : List (Op ι α)} {out : List (ι × α)}
    (h : run q ops = some (q', out)) (i : ι) :
    received i out ++ q' i = q i ++ sent i ops := by
  -- induction on the operations, the queues and the output general
  induction ops generalizing q out with
  | nil =>
    simp only [run, Option.some.injEq, Prod.mk.injEq] at h
    obtain ⟨rfl, rfl⟩ := h
    simp [sent]
  | cons op ops ih =>
    obtain ⟨q₁, out₁, out₂, hstep, hrun, rfl⟩ := run_cons_eq_some h
    calc received i (out₁ ++ out₂) ++ q' i
        = received i out₁ ++ (received i out₂ ++ q' i) := by simp
      _ = received i out₁ ++ (q₁ i ++ sent i ops) := by rw [ih hrun]
      _ = (received i out₁ ++ q₁ i) ++ sent i ops := by simp
      _ = q i ++ sent i [op] ++ sent i ops := by rw [step_received_append hstep]
      _ = q i ++ sent i (op :: ops) := by rw [sent_cons i op ops, List.append_assoc]

theorem run_received_prefix {q q' : ι → List α} {ops : List (Op ι α)} {out : List (ι × α)}
    (hq : ∀ i, q i = []) (h : run q ops = some (q', out)) (i : ι) :
    received i out <+: sent i ops := by
  have hlaw := run_received_append h i
  rw [hq i, List.nil_append] at hlaw
  exact ⟨q' i, hlaw⟩

end Fifo
