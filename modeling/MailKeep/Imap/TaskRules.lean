import MailKeep.Imap.Tasks
import MailKeep.Imap.View

/-! Proof rule for the tasks: what to show of one pass to have it of every run. -/
namespace MailKeep
open Program Backend

def FolderConfig.advanced (cfg : FolderConfig) (r : U32 × U32) : FolderConfig :=
  { cfg with lastUid := r.1, uidvalidity := some r.2 }

/-- `Calm` holds between the passes, and `Ready` of a copy where a pass over it may start. -/
structure PassRule {computeHash : Bytes → ContentHash} (allowed : (backend computeHash).Allowed)
    (V : SyncView → Prop) (G : SyncView → SyncView → Prop) (accountId : AccountId) (task : SyncTask)
    (Calm : SyncView → Prop) (Ready : FolderConfig → SyncView → Prop) : Prop where
  refl : ∀ v, G v v
  trans : ∀ {u v w}, G u v → G v w → G u w
  pass : ∀ cfg (s : World), V s.view → Calm s.view → Ready cfg s.view →
    SafeAct (viewContract allowed V G)
      (fun r t =>
        let v := t.view.push (.passed cfg)
        V v ∧ G t.view v ∧ Calm v ∧ Ready (cfg.advanced r) v)
      (fun _ t => Calm t.view) (syncFolder accountId cfg) s
  connected : ∀ v, V v → Calm v → V (v.push .connected) ∧ G v (v.push .connected) ∧ Calm (v.push .connected)
  ready : ∀ cfg ∈ task.folders, ∀ v, V v → Calm v → task.Captured v.log → Ready cfg v

section Tasks
variable {computeHash : Bytes → ContentHash} {allowed : (backend computeHash).Allowed} {V : SyncView → Prop}
  {G : SyncView → SyncView → Prop} {accountId : AccountId} {task : SyncTask} {Calm : SyncView → Prop}
  {Ready : FolderConfig → SyncView → Prop} {s : World}

/-- Between two rounds: a copy an open connection goes on with is ready. -/
def SyncTask.Inv (Calm : SyncView → Prop) (Ready : FolderConfig → SyncView → Prop) :
    (task : SyncTask) → task.State → SyncView → Prop
  | .poll _ _, _, v => Calm v
  | .idle _, st, v => Calm v ∧ ∀ cur, st.cur = some cur → Ready cur v

theorem SyncTask.Inv.calm {st : task.State} {v : SyncView} (h : task.Inv Calm Ready st v) : Calm v := by
  cases task with
  | poll => exact h
  | idle => exact h.1

theorem SyncTask.Inv.start {v : SyncView} (h : Calm v) : task.Inv Calm Ready task.start v := by
  cases task with
  | poll => exact h
  | idle => exact ⟨h, fun cur hc => by cases hc⟩

namespace PassRule

/-- An operation the folder rows and the history do not see. -/
private theorem unseen (R : PassRule allowed V G accountId task Calm Ready) {o : BackendOp} (P : SyncView → Prop)
    (hV : V s.view) (hP : P s.view) (same : ∀ c w, (backendExec computeHash o c w).2.view = w.view) :
    SafeAct (viewContract allowed V G) (fun _ t => P t.view) (fun _ t => Calm t.view) (perform o) s :=
  perform_view R.refl (fun _ v => P v) (fun _ => Calm) hV same fun _ _ => hP

private theorem stop {α : Type} {a : α} {P : SyncView → Prop} (h : P s.view) :
    SafeAct (viewContract allowed V G) (fun _ t => P t.view) (fun _ t => Calm t.view)
      (pure a : BackendAction α) s :=
  SafeAct.pure fun _ _ hr => hr ▸ h

private theorem connectAndLogin_rule (R : PassRule allowed V G accountId task Calm Ready) (hV : V s.view)
    (hc : Calm s.view) :
    SafeAct (viewContract allowed V G) (fun _ t => Calm t.view ∧ t.view.log.head? = some .connected)
      (fun _ t => Calm t.view) connectAndLogin s := by
  apply @SafeAct.call (backend computeHash) _ _ _ _ _ .connect id s
  rintro _ - rfl c -
  cases c with
  | ok u =>
    obtain ⟨h1, h2, h3⟩ := R.connected s.view hV hc
    refine ⟨h1, h2, ?_⟩
    rintro _ - rfl
    exact ⟨fun _ _ => ⟨h3, rfl⟩, fun _ he => (by cases he)⟩
  | error e =>
    refine ⟨hV, R.refl _, ?_⟩
    rintro _ - rfl
    exact ⟨fun _ ha => (by cases ha), fun _ _ => hc⟩

private theorem pollFolders_rule (R : PassRule allowed V G accountId task Calm Ready) (folders : List FolderConfig)
    (start : ∀ cfg ∈ folders, ∀ v, V v → Calm v → Ready cfg v) (s : World) (hV : V s.view) (hc : Calm s.view) :
    SafeAct (viewContract allowed V G) (fun _ t => Calm t.view) (fun _ t => Calm t.view)
      (pollFolders accountId folders) s := by
  induction folders generalizing s with
  | nil => exact stop hc
  | cons cfg folders ih =>
    have next := ih fun cfg' h => start cfg' (List.mem_cons_of_mem _ h)
    apply SafeAct.seq viewContract_stable (R.unseen Calm hV hc fun _ _ => rfl)
    intro b t ht hct
    cases b with
    | true => exact stop hct
    | false =>
      refine SafeAct.seq viewContract_stable (SafeAct.attempt viewContract_stable
        (R.pass cfg t ht hct (start cfg (List.mem_cons_self ..) _ ht hct))) fun r u hu hr => ?_
      cases r with
      | ok r =>
        obtain ⟨h1, h2, h3, -⟩ := hr.1 r rfl
        exact SafeAct.seq viewContract_stable (note_view Calm (fun _ => Calm) h1 h2 h3)
          fun _ w hw hcw => next w hw hcw
      | error e =>
        have hcu := hr.2 e rfl
        cases e
        case folderNotFound => exact next u hu hcu
        all_goals exact SafeAct.throw fun _ _ hr => hr ▸ hcu

private theorem noteFailure_rule (R : PassRule allowed V G accountId task Calm Ready) {failures : U32} {e : Error}
    (hV : V s.view) (hc : Calm s.view) :
    SafeAct (viewContract allowed V G) (fun _ t => Calm t.view) (fun _ t => Calm t.view)
      (noteFailure accountId failures e) s :=
  SafeAct.seq viewContract_stable (R.unseen Calm hV hc fun _ _ => rfl) fun _ _ _ h => stop h

private theorem pollPass_rule {foldersCfg : List FolderConfig} {pollInterval : Nat}
    (R : PassRule allowed V G accountId (.poll foldersCfg pollInterval) Calm Ready)
    (hV : V s.view) (hc : Calm s.view) :
    SafeAct (viewContract allowed V G) (fun _ t => Calm t.view) (fun _ t => Calm t.view)
      (pollPass accountId foldersCfg) s := by
  apply SafeAct.seq viewContract_stable (R.connectAndLogin_rule hV hc)
  intro _ t ht hct
  refine SafeAct.seq viewContract_stable (R.pollFolders_rule foldersCfg
    (fun cfg h v hv hcv => R.ready cfg h v hv hcv trivial) t ht hct.1) fun _ u hu hcu => ?_
  exact R.unseen Calm hu hcu fun _ _ => rfl

private theorem pollRound_rule {foldersCfg : List FolderConfig} {pollInterval : Nat} {failures : U32}
    (R : PassRule allowed V G accountId (.poll foldersCfg pollInterval) Calm Ready) (hV : V s.view) (hc : Calm s.view) :
    SafeAct (viewContract allowed V G) (fun _ t => Calm t.view) (fun _ t => Calm t.view)
      (pollRound accountId foldersCfg pollInterval failures) s := by
  apply SafeAct.seq viewContract_stable (R.unseen Calm hV hc fun _ _ => rfl)
  intro _ t ht hct
  apply SafeAct.seq viewContract_stable (R.unseen Calm ht hct fun _ _ => rfl)
  intro _ u hu hcu
  apply SafeAct.seq viewContract_stable (SafeAct.attempt viewContract_stable (R.pollPass_rule hu hcu))
  intro r w hw hr
  have wait : ∀ (n : U32 × Nat) (x : World), V x.view → Calm x.view →
      SafeAct (viewContract allowed V G) (fun _ y => Calm y.view) (fun _ y => Calm y.view)
        (do if ← perform (.sleep n.2) then return none else return some n.1 : BackendAction (Option U32)) x := by
    intro n x hx hcx
    apply SafeAct.seq viewContract_stable (R.unseen Calm hx hcx fun _ _ => rfl)
    intro b y _ hcy
    cases b <;> exact stop hcy
  cases r with
  | ok u =>
    apply SafeAct.seq viewContract_stable (R.unseen Calm hw (hr.1 _ rfl) fun _ _ => rfl)
    intro _ x hx hcx
    apply SafeAct.seq viewContract_stable (R.unseen Calm hx hcx fun _ _ => rfl)
    intro _ y hy hcy
    exact wait (0, pollInterval) y hy hcy
  | error e =>
    apply SafeAct.seq viewContract_stable (R.noteFailure_rule hw (hr.2 _ rfl))
    intro n x hx hcx
    exact wait (n, backoffDelay n) x hx hcx

private def Next (Calm : SyncView → Prop) (Ready : FolderConfig → SyncView → Prop) (r : Option IdleState)
    (v : SyncView) : Prop :=
  ∀ st, r = some st → Calm v ∧ ∀ cur, st.cur = some cur → Ready cur v

private theorem Next.none {v : SyncView} : Next Calm Ready none v := fun _ h => by cases h

private theorem Next.stop {r : Option IdleState} (h : Next Calm Ready r s.view) :
    SafeAct (viewContract allowed V G) (fun r t => Next Calm Ready r t.view) (fun _ t => Calm t.view)
      (pure r : BackendAction (Option IdleState)) s :=
  SafeAct.pure fun _ _ hr => hr ▸ h

private theorem idleReconnect_rule (R : PassRule allowed V G accountId task Calm Ready) {failures : U32} {e : Error}
    (hV : V s.view) (hc : Calm s.view) :
    SafeAct (viewContract allowed V G) (fun r t => Next Calm Ready r t.view) (fun _ t => Calm t.view)
      (idleReconnect accountId failures e) s := by
  apply SafeAct.seq viewContract_stable (R.noteFailure_rule hV hc)
  intro n t ht hct
  apply SafeAct.seq viewContract_stable (R.unseen Calm ht hct fun _ _ => rfl)
  intro b u _ hcu
  cases b with
  | true => exact Next.none.stop
  | false =>
    apply Next.stop
    rintro st ⟨⟩
    exact ⟨hcu, fun _ h => by cases h⟩

private theorem park_rule (R : PassRule allowed V G accountId task Calm Ready) {cur : FolderConfig} (hV : V s.view)
    (hc : Calm s.view) (hr : Ready cur s.view) :
    SafeAct (viewContract allowed V G) (fun r t => Next Calm Ready r t.view) (fun _ t => Calm t.view)
      (park accountId cur) s := by
  have both : ∀ {o : BackendOp} (x : World), V x.view → Calm x.view ∧ Ready cur x.view →
      (∀ c w, (backendExec computeHash o c w).2.view = w.view) →
      SafeAct (viewContract allowed V G) (fun _ t => Calm t.view ∧ Ready cur t.view) (fun _ t => Calm t.view)
        (perform o) x :=
    fun x hx hb same => R.unseen (fun v => Calm v ∧ Ready cur v) hx hb same
  apply SafeAct.seq viewContract_stable (both s hV ⟨hc, hr⟩ fun _ _ => rfl)
  intro _ t ht hbt
  apply SafeAct.seq viewContract_stable (both t ht hbt fun _ _ => rfl)
  intro _ u hu hbu
  apply SafeAct.seq viewContract_stable (both u hu hbu fun _ _ => rfl)
  intro outcome w hw hbw
  cases outcome with
  | woken =>
    apply Next.stop
    rintro st ⟨⟩
    exact ⟨hbw.1, fun _ h => by cases h; exact hbw.2⟩
  | cancelled => exact SafeAct.seq viewContract_stable (R.unseen Calm hw hbw.1 fun _ _ => rfl) fun _ _ _ _ => Next.none.stop
  | failed error => exact R.idleReconnect_rule hw hbw.1

private theorem idleRound_rule {folder : FolderConfig} {st : IdleState}
    (R : PassRule allowed V G accountId (.idle folder) Calm Ready) (hV : V s.view) (hc : Calm s.view)
    (hr : ∀ cur, st.cur = some cur → Ready cur s.view) :
    SafeAct (viewContract allowed V G) (fun r t => Next Calm Ready r t.view) (fun _ t => Calm t.view)
      (idleRound accountId folder st) s := by
  obtain ⟨failures, cur⟩ := st
  refine SafeAct.seq viewContract_stable (R.unseen (fun v => Calm v ∧ ∀ c, cur = some c → Ready c v) hV ⟨hc, hr⟩
    fun _ _ => rfl) fun b t ht hbt => ?_
  cases b with
  | true =>
    cases cur with
    | none => exact Next.none.stop
    | some cur =>
      exact SafeAct.seq viewContract_stable (R.unseen Calm ht hbt.1 fun _ _ => rfl) fun _ _ _ _ => Next.none.stop
  | false =>
    cases cur with
    | none =>
      apply SafeAct.seq viewContract_stable (R.unseen Calm ht hbt.1 fun _ _ => rfl)
      intro _ u hu hcu
      apply SafeAct.seq viewContract_stable (R.unseen Calm hu hcu fun _ _ => rfl)
      intro _ w hw hcw
      refine SafeAct.seq viewContract_stable (SafeAct.attempt viewContract_stable (R.connectAndLogin_rule hw hcw))
        fun r x hx hrx => ?_
      cases r with
      | ok u =>
        obtain ⟨h1, h2⟩ := hrx.1 u rfl
        apply Next.stop
        rintro st ⟨⟩
        refine ⟨h1, fun c hcur => ?_⟩
        cases hcur
        exact R.ready folder (List.mem_singleton_self _) _ hx h1 h2
      | error e => exact R.idleReconnect_rule hx (hrx.2 e rfl)
    | some cur =>
      refine SafeAct.seq viewContract_stable (SafeAct.attempt viewContract_stable
        (R.pass cur t ht hbt.1 (hbt.2 cur rfl))) fun r u hu hru => ?_
      cases r with
      | ok r =>
        obtain ⟨h1, h2, h3, h4⟩ := hru.1 r rfl
        refine SafeAct.seq viewContract_stable (note_view (fun v => Calm v ∧ Ready (cur.advanced r) v) (fun _ => Calm)
          h1 h2 ⟨h3, h4⟩) fun _ w hw hbw => ?_
        exact R.park_rule hw hbw.1 hbw.2
      | error e => exact R.idleReconnect_rule hu (hru.2 e rfl)

/-- A round of either task. -/
private theorem round_rule (R : PassRule allowed V G accountId task Calm Ready) {st : task.State} (hV : V s.view)
    (hi : task.Inv Calm Ready st s.view) :
    Safe (viewContract allowed V G) (Between fun st t => task.Inv Calm Ready st t.view)
      (task.round accountId st) s := by
  cases task with
  | poll foldersCfg pollInterval =>
    refine Safe.bind viewContract_stable (Safe.weaken (R.pollRound_rule hV hi) ?_)
    rintro r t - h _ - rfl st hst
    cases r with
    | ok r => exact h
    | error e => cases hst
  | idle folder =>
    refine Safe.bind viewContract_stable (Safe.weaken (R.idleRound_rule hV hi.1 hi.2) ?_)
    rintro r t - h _ - rfl st hst
    cases r with
    | ok r => exact h st hst
    | error e => cases hst

/-- Cut off anywhere, a run of the task is in a valid state, and it keeps the guarantee from there on. -/
theorem reaches (R : PassRule allowed V G accountId task Calm Ready) (hV : V s.view) (hc : Calm s.view)
    {x : BackendProg (Option task.State) × World}
    (hx : LoopReaches allowed (task.round accountId) (task.round accountId task.start, s) x) :
    V x.2.view ∧ ∀ y, LoopReaches allowed (task.round accountId) x y → G x.2.view y.2.view := by
  have loop := @Safe.loop (backend computeHash) _ allowed (task.round accountId) (fun t => V t.view)
    (fun s t => G s.view t.view) (fun st t => task.Inv Calm Ready st t.view) (fun s => R.refl s.view) R.trans
    (fun _ _ hv hi => R.round_rule hv hi)
  obtain ⟨h1, h2, -⟩ := @loop (_, s) x hV (R.round_rule hV (.start hc)) hx
  exact ⟨h1, fun y hy => (@loop x y h1 h2 hy).2.2⟩

end PassRule
end Tasks
end MailKeep
