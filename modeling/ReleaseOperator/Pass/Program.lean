/-!
# Programs that ask

A program asks questions, one after the other, and goes on with the answers. It
is a tree, so it always comes to an end, and it says nothing about who answers:
the same program can be run against a cluster, against a memory, or by a proof.
-/

namespace ReleaseOperator

/-- A program with questions of type `Q`, each with its own type of answer. -/
inductive Program (Q : Type) (A : Q → Type) (α : Type) : Type where
  | done (a : α)
  | ask (q : Q) (next : A q → Program Q A α)

namespace Program

variable {Q : Type} {A : Q → Type} {α β γ : Type}

def bind : Program Q A α → (α → Program Q A β) → Program Q A β
  | done a, f => f a
  | ask q next, f => ask q fun r => (next r).bind f

instance : Monad (Program Q A) where
  pure := done
  bind := bind

def call (q : Q) : Program Q A (A q) := ask q done

/-- A program with someone who answers. -/
def run {m : Type → Type} [Monad m] (answer : (q : Q) → m (A q)) : Program Q A α → m α
  | done a => pure a
  | ask q next => do
    let r ← answer q
    (next r).run answer

@[simp] theorem bind_done (a : α) (f : α → Program Q A β) : (done a).bind f = f a := rfl

@[simp] theorem bind_ask (q : Q) (next : A q → Program Q A α) (f : α → Program Q A β) :
    (ask q next).bind f = ask q fun r => (next r).bind f := rfl

@[simp] theorem pure_eq (a : α) : (pure a : Program Q A α) = done a := rfl

@[simp] theorem bind_eq (p : Program Q A α) (f : α → Program Q A β) : p >>= f = p.bind f := rfl

theorem bind_assoc (p : Program Q A α) (f : α → Program Q A β) (g : β → Program Q A γ) :
    (p.bind f).bind g = p.bind fun a => (f a).bind g := by
  induction p with
  | done a => rfl
  | ask q next ih => simp [ih]

theorem bind_done_right (p : Program Q A α) : p.bind done = p := by
  induction p with
  | done a => rfl
  | ask q next ih => simp [ih]

instance : LawfulMonad (Program Q A) :=
  .mk' (Program Q A) bind_done_right (fun _ _ => rfl) bind_assoc

@[simp] theorem run_done {m : Type → Type} [Monad m] (answer : (q : Q) → m (A q)) (a : α) :
    (done a : Program Q A α).run answer = pure a := rfl

@[simp] theorem run_ask {m : Type → Type} [Monad m] (answer : (q : Q) → m (A q)) (q : Q)
    (next : A q → Program Q A α) :
    (ask q next).run answer = answer q >>= fun r => (next r).run answer := rfl

theorem run_bind {m : Type → Type} [Monad m] [LawfulMonad m] (answer : (q : Q) → m (A q))
    (p : Program Q A α) (f : α → Program Q A β) :
    (p.bind f).run answer = p.run answer >>= fun a => (f a).run answer := by
  induction p with
  | done a => simp
  | ask q next ih => simp [ih]

end Program

end ReleaseOperator
