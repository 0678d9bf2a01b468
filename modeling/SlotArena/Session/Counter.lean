import SlotArena.Session.Reply

/-!
Sessions on a bare counter.  A counter keeps the sum of all changes, whatever order they were made
in, and wraps with its word; so a subtraction that overtakes its addition does no harm.  Readers see
the sum, or zero while it is negative, as long as it fits (`run_reads`).
-/

namespace SlotArena.Session.OfCounter

inductive Step
  | add (n : Nat)
  | sub (n : Nat)
  deriving DecidableEq, Repr

def act : Step → Act (Running Counter) Reply
  | .add n => onObject (silent (Act.modify (·.add n)))
  | .sub n => onObject (silent (Act.modify (·.sub n)))

/-- A session that starts at zero; every step shows what a reader sees after it. -/
def run (steps : List (Asked Step)) : List (Turn Nat) :=
  (play act (fun _ _ s => some s.object.get) (.start .zero) steps).turns

/-! ### What readers see -/

def Step.change : Step → Int
  | .add n => Counter.delta n
  | .sub n => -Counter.delta n

def net : List Step → Int
  | [] => 0
  | step :: rest => step.change + net rest

@[simp] theorem net_nil : net [] = 0 := rfl

theorem net_cons (step : Step) (rest : List Step) :
    net (step :: rest) = step.change + net rest := rfl

/-- The order of the changes does not matter. -/
theorem net_perm {steps steps' : List Step} (h : steps.Perm steps') : net steps = net steps' := by
  induction h with
  | nil => rfl
  | cons step _ ih => rw [net_cons, net_cons, ih]
  | swap step step' rest =>
    simp only [net_cons]
    omega
  | trans _ _ ih ih' => exact ih.trans ih'

theorem run_act (step : Step) {s : Running Counter} {x : Int} (hs : s.object = .wrapped x) :
    (act step).run s = ⟨.ok .done, { s with object := .wrapped (x + step.change) }, []⟩ := by
  cases step with
  | add n =>
    simp only [act, onObject, silent, Act.run_focus, hs, Step.change, ← Counter.wrapped_add]
    rfl
  | sub n =>
    simp only [act, onObject, silent, Act.run_focus, hs, Step.change, ← Int.sub_eq_add_neg,
      ← Counter.wrapped_sub]
    rfl

theorem play_reads {steps : List Step} {s : Running Counter} {x : Int}
    (hs : s.object = .wrapped x) (hlogging : s.logging = false) {i : Nat} (hi : i < steps.length) :
    (play act (fun _ _ s => some s.object.get) s (steps.map .ok)).turns[i]? =
      some ⟨.done, some (Counter.wrapped (x + net (steps.take (i + 1)))).get, []⟩ := by
  induction steps generalizing s x i with
  | nil => exact absurd hi (Nat.not_lt_zero _)
  | cons step rest ih =>
    have hperform := perform_eq (act step) hlogging
    rw [run_act step hs] at hperform
    rw [List.map_cons, play]
    simp only [answer, hperform]
    rw [if_neg (by decide)]
    cases i with
    | zero => simp [net_cons, Reply.ofResult, Event.lines]
    | succ i =>
      rw [List.getElem?_cons_succ, List.take_succ_cons, net_cons, ← Int.add_assoc]
      refine ih ?_ ?_ (Nat.lt_of_add_lt_add_right hi)
      · rfl
      · exact hlogging

/-- A reader sees the sum of all changes, or zero below zero, if the sum fits the word. -/
theorem run_reads {steps : List Step} {i : Nat} (hi : i < steps.length)
    (hlo : -2 ^ 63 ≤ net (steps.take (i + 1))) (hhi : net (steps.take (i + 1)) < 2 ^ 63) :
    (run (steps.map .ok))[i]? = some ⟨.done, some (net (steps.take (i + 1))).toNat, []⟩ := by
  rw [run, play_reads (x := 0) rfl rfl hi, Int.zero_add, Counter.get_wrapped hlo hhi]

example : (run [.ok (.sub 10), .ok (.add 25)]).map Turn.reading = [some 0, some 15] := by decide

end SlotArena.Session.OfCounter
