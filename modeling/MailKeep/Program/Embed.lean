import MailKeep.Program.Machine

/-! Programs over one signature as programs over a larger one. -/
namespace Program

/-- Each operation of the small signature is one of the large one. -/
structure Embedding (S T : Signature) where
  op : S.Op → T.Op
  reply : ∀ o, T.Reply (op o) → S.Reply o

variable {S T : Signature} {α β ε ε' : Type}

def Prog.embed (E : Embedding S T) : Prog S α → Prog T α
  | .ret a => .ret a
  | .call o next => .call (E.op o) fun r => (next (E.reply o r)).embed E

theorem Prog.embed_bind (E : Embedding S T) (p : Prog S α) (f : α → Prog S β) :
    (p >>= f).embed E = p.embed E >>= fun a => (f a).embed E := by
  induction p with
  | ret a => rfl
  | call o next ih => exact congrArg (Prog.call (E.op o)) (funext fun r => ih (E.reply o r))

namespace Embedding

/-- The same for an action. -/
def act (E : Embedding S T) (x : Action S ε α) : Action T ε α := .mk (x.run.embed E)

variable (E : Embedding S T)

theorem act_pure (a : α) : E.act (pure a : Action S ε α) = pure a := rfl

theorem act_liftResult (r : Except ε α) : E.act (liftResult r) = liftResult r := rfl

theorem act_reject {c : Prop} [Decidable c] (e : ε) : E.act (reject c e) = reject c e := by
  unfold reject
  split <;> rfl

theorem act_bind (x : Action S ε α) (f : α → Action S ε β) :
    E.act (x >>= f) = E.act x >>= fun a => E.act (f a) := by
  have branch : ∀ r : Except ε α, (ExceptT.bindCont f r : Prog S (Except ε β)).embed E =
      (ExceptT.bindCont (fun a => E.act (f a)) r : Prog T (Except ε β)) := by
    intro r
    cases r with
    | ok a => rfl
    | error e => rfl
  change ExceptT.mk ((x.run >>= ExceptT.bindCont f).embed E) = ExceptT.mk (x.run.embed E >>= _)
  rw [Prog.embed_bind, funext branch]

theorem act_mapErr (f : ε → ε') (x : Action S ε α) : E.act (mapErr f x) = mapErr f (E.act x) :=
  congrArg ExceptT.mk (Prog.embed_bind E x.run _)

end Embedding
end Program
