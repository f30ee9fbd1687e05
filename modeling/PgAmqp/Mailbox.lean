import Mathlib.Data.List.Basic

/-!
# A mailbox with transactions

Messages are posted into a mailbox and held there until all that is held is settled at once: it
is delivered, or it comes to another end. A spoiled mailbox takes no message and delivers
nothing. What was settled so far, followed by what is held, is what was posted, in order, so
that every message has one fate and shares it with the messages settled together with it.
-/
namespace Mailbox

variable {μ : Type}

/-- What becomes of the messages that are settled together. -/
inductive Fate where
  | delivered
  | rolledBack
  /-- Given up, with a report of how many there were. -/
  | reported
  /-- Given up without a word. -/
  | forgotten
  deriving DecidableEq, Repr

structure Box (μ : Type) where
  held : List μ
  spoiled : Bool
  /-- Oldest first. -/
  settled : List (Fate × List μ)
  deriving DecidableEq, Repr

inductive Op (μ : Type) where
  | post (m : μ)
  | spoil
  | settle (fate : Fate)
  deriving DecidableEq, Repr

namespace Box

def empty : Box μ := ⟨[], false, []⟩

/-- Only what is forgotten leaves the mailbox spoiled. -/
def close (box : Box μ) (fate : Fate) : Box μ where
  held := []
  spoiled := fate = .forgotten && box.spoiled
  settled := box.settled ++ [(fate, box.held)]

def step (box : Box μ) : Op μ → Option (Box μ)
  | .post m => if box.spoiled then none else some { box with held := box.held ++ [m] }
  | .spoil => some { box with spoiled := true }
  | .settle fate => if box.spoiled ∧ fate = .delivered then none else some (box.close fate)

def run (box : Box μ) : List (Op μ) → Option (Box μ)
  | [] => some box
  | op :: rest => (box.step op).bind fun box' => box'.run rest

theorem step_post {box box' : Box μ} {m : μ} :
    box.step (.post m) = some box' ↔ box.spoiled = false ∧ { box with held := box.held ++ [m] } = box' := by
  simp [step]

theorem step_spoil {box box' : Box μ} : box.step .spoil = some box' ↔ { box with spoiled := true } = box' := by
  simp [step]

theorem step_settle {box box' : Box μ} {fate : Fate} : box.step (.settle fate) = some box' ↔
    (box.spoiled = true → fate ≠ .delivered) ∧ box.close fate = box' := by
  simp [step]

/-- The messages with this fate. -/
def settledAs (box : Box μ) (fate : Fate) : List μ := (box.settled.filter (·.1 = fate)).flatMap Prod.snd

@[simp] theorem run_nil (box : Box μ) : box.run [] = some box := rfl

@[simp] theorem run_singleton (box : Box μ) (op : Op μ) : box.run [op] = box.step op := by
  simp [run]

theorem run_append (box : Box μ) (ops ops' : List (Op μ)) :
    box.run (ops ++ ops') = (box.run ops).bind fun box' => box'.run ops' := by
  induction ops generalizing box with
  | nil => rfl
  | cons op rest ih => simp [run, ih, Option.bind_assoc]

theorem run_trans {box box' box'' : Box μ} {ops ops' : List (Op μ)} (h : box.run ops = some box')
    (h' : box'.run ops' = some box'') : box.run (ops ++ ops') = some box'' := by
  rw [run_append, h]
  exact h'

@[simp] theorem close_settledAs (box : Box μ) (fate fate' : Fate) :
    (box.close fate).settledAs fate' = box.settledAs fate' ++ if fate = fate' then box.held else [] := by
  unfold settledAs close
  rw [List.filter_append, List.flatMap_append]
  by_cases h : fate = fate' <;> simp [h]

/-- A step that settles nothing with this fate adds nothing to it. -/
theorem step_settledAs {box box' : Box μ} {op : Op μ} {fate : Fate} (h : box.step op = some box')
    (ho : op ≠ .settle fate) : box'.settledAs fate = box.settledAs fate := by
  cases op with
  | post m =>
    obtain ⟨-, rfl⟩ := step_post.mp h
    rfl
  | spoil =>
    obtain rfl := step_spoil.mp h
    rfl
  | settle fate' =>
    obtain ⟨-, rfl⟩ := step_settle.mp h
    have hne : fate' ≠ fate := fun he => ho (by rw [he])
    simp [hne]

theorem run_settledAs {box box' : Box μ} {ops : List (Op μ)} {fate : Fate} (h : box.run ops = some box')
    (ho : .settle fate ∉ ops) : box'.settledAs fate = box.settledAs fate := by
  induction ops generalizing box with
  | nil =>
    obtain rfl := Option.some.inj h
    rfl
  | cons op rest ih =>
    obtain ⟨hop, hrest⟩ := not_or.mp (List.mem_cons.not.mp ho)
    obtain ⟨box₁, h₁, h₂⟩ := Option.bind_eq_some_iff.mp h
    rw [ih h₂ hrest, step_settledAs h₁ (Ne.symm hop)]

end Box

/-- The messages that were posted, in order. -/
def posts (ops : List (Op μ)) : List μ :=
  ops.filterMap fun op => match op with
    | .post m => some m
    | _ => none

@[simp] theorem posts_nil : posts ([] : List (Op μ)) = [] := rfl

@[simp] theorem posts_append (ops ops' : List (Op μ)) : posts (ops ++ ops') = posts ops ++ posts ops' := by
  simp [posts]

namespace Box

/-- All messages a mailbox has ever taken. -/
def taken (box : Box μ) : List μ := box.settled.flatMap Prod.snd ++ box.held

theorem step_taken {box box' : Box μ} {op : Op μ} (h : box.step op = some box') :
    box'.taken = box.taken ++ posts [op] := by
  cases op with
  | post m =>
    obtain ⟨-, rfl⟩ := step_post.mp h
    simp [taken, posts]
  | spoil =>
    obtain rfl := step_spoil.mp h
    simp [taken, posts]
  | settle fate =>
    obtain ⟨-, rfl⟩ := step_settle.mp h
    simp [taken, posts, close]

/-- Nothing is lost track of, doubled or reordered. -/
theorem run_taken {box box' : Box μ} {ops : List (Op μ)} (h : box.run ops = some box') :
    box'.taken = box.taken ++ posts ops := by
  induction ops generalizing box with
  | nil =>
    obtain rfl := Option.some.inj h
    simp
  | cons op rest ih =>
    obtain ⟨box₁, h₁, h₂⟩ := Option.bind_eq_some_iff.mp h
    rw [ih h₂, step_taken h₁, List.append_assoc, ← posts_append, List.singleton_append]

theorem settledAs_sublist (box : Box μ) (fate : Fate) : (box.settledAs fate).Sublist box.taken := by
  have hfilter : (box.settledAs fate).Sublist (box.settled.flatMap Prod.snd) := by
    unfold settledAs
    induction box.settled with
    | nil => exact .slnil
    | cons p rest ih =>
      rw [List.filter_cons, List.flatMap_cons]
      split
      · rw [List.flatMap_cons]
        exact (List.Sublist.refl p.2).append ih
      · exact ih.trans (List.sublist_append_right p.2 _)
  exact hfilter.trans (List.sublist_append_left _ _)

theorem run_empty_taken {box : Box μ} {ops : List (Op μ)} (h : empty.run ops = some box) : box.taken = posts ops :=
  (run_taken h).trans (by simp [taken, empty])

end Box

end Mailbox
