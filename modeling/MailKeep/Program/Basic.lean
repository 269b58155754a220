import Mathlib.Logic.Relation

/-! Finite programs over a signature of atomic operations. A program is a tree of
operations; everything between two operations is pure. -/
namespace Program

/-- The operations a program may issue and the type of each reply. -/
structure Signature where
  Op : Type
  Reply : Op → Type

/-- A finite program: it has returned, or it waits for the reply to one operation. -/
inductive Prog (S : Signature) (α : Type) : Type where
  | ret (a : α) : Prog S α
  | call (o : S.Op) (next : S.Reply o → Prog S α) : Prog S α

namespace Prog
variable {S : Signature} {α β γ : Type}

def bind : Prog S α → (α → Prog S β) → Prog S β
  | .ret a, f => f a
  | .call o next, f => .call o (fun r => (next r).bind f)

instance : Monad (Prog S) where
  pure := .ret
  bind := bind

@[simp] theorem pure_eq (a : α) : (pure a : Prog S α) = .ret a := rfl
@[simp] theorem ret_bind (a : α) (f : α → Prog S β) : (Prog.ret a >>= f) = f a := rfl
@[simp] theorem call_bind (o : S.Op) (next : S.Reply o → Prog S α) (f : α → Prog S β) :
    (Prog.call o next >>= f) = .call o (fun r => next r >>= f) := rfl

theorem bind_ret (p : Prog S α) : p >>= Prog.ret = p := by
  induction p with
  | ret a => rfl
  | call o next ih => exact congrArg (Prog.call o) (funext ih)

theorem bind_assoc (p : Prog S α) (f : α → Prog S β) (g : β → Prog S γ) :
    p >>= f >>= g = p >>= fun a => f a >>= g := by
  induction p with
  | ret a => rfl
  | call o next ih => exact congrArg (Prog.call o) (funext ih)

instance : LawfulMonad (Prog S) :=
  LawfulMonad.mk' (Prog S) bind_ret (fun _ _ => rfl) bind_assoc

end Prog

/-- A program that may fail: the reading of a function with a fallible result. -/
abbrev Action (S : Signature) (ε α : Type) := ExceptT ε (Prog S) α

/-- Run an action and go on with its result, whatever it is. -/
def attempt {S : Signature} {ε ε' α : Type} (x : Action S ε α) : Action S ε' (Except ε α) :=
  .mk (x.run >>= fun r => .ret (.ok r))

/-- The same action with its errors translated. -/
def mapErr {S : Signature} {ε ε' α : Type} (f : ε → ε') (x : Action S ε α) : Action S ε' α :=
  .mk (x.run >>= fun r => .ret (r.mapError f))

/-- A result that is already known. -/
def liftResult {S : Signature} {ε α : Type} (r : Except ε α) : Action S ε α := .mk (.ret r)

/-- Stop with an error where a check finds one. -/
def reject {S : Signature} {ε : Type} (c : Prop) [Decidable c] (e : ε) : Action S ε Unit :=
  if c then throw e else pure ()

end Program
