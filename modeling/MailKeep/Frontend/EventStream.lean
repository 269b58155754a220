import MailKeep.Channel.Broadcast
import MailKeep.Core.Types
import Mathlib.Logic.Relation

/-! The server-sent event stream of one subscriber: a burst of account events comes through as one nudge. -/
namespace MailKeep
open Channel Relation

inductive AppEvent
  | accountsChanged
deriving DecidableEq

def eventCapacity : Nat := 64

def debounce : Nat := 500

inductive StreamPhase
  | waiting
  | draining (deadline : Nat)
  | ended
deriving DecidableEq

/-- `nudges` is a history: the times of the events sent to the client, newest first. -/
structure EventStream where
  next : Nat
  phase : StreamPhase
  nudges : List Nat
deriving DecidableEq

namespace EventStream

def subscribe (bus : Broadcast AppEvent) : EventStream := ⟨bus.sent.length, .waiting, []⟩

def nudge (s : EventStream) (now : Nat) : EventStream := { s with phase := .waiting, nudges := now :: s.nudges }

/-- The first event of a burst opens the window, the end of the channel ends the stream. -/
def awaitBurst (bus : Broadcast AppEvent) (now : Nat) (s : EventStream) : Option EventStream :=
  match bus.recv eventCapacity s.next with
  | some (.closed, _) => some { s with phase := .ended }
  | some (_, next) => some { s with next := next, phase := .draining (now + debounce) }
  | none => none

/-- Within the window an event is swallowed, and the end of the channel closes the window. -/
def swallow (bus : Broadcast AppEvent) (now : Nat) (s : EventStream) : Option EventStream :=
  match bus.recv eventCapacity s.next with
  | some (.closed, _) => some (s.nudge now)
  | some (_, next) => some { s with next := next }
  | none => none

/-- One turn of the stream; `none` while it waits. Where the window is over and an event is there as well, either
branch may be taken. -/
def turn (bus : Broadcast AppEvent) (now : Nat) (windowFirst : Bool) (s : EventStream) : Option EventStream :=
  match s.phase with
  | .waiting => s.awaitBurst bus now
  | .draining deadline =>
    if deadline ≤ now ∧ (windowFirst ∨ (bus.recv eventCapacity s.next).isNone) then some (s.nudge now)
    else s.swallow bus now
  | .ended => none

def Draining (s : EventStream) : Prop := ∃ deadline, s.phase = .draining deadline

theorem turn_due {bus : Broadcast AppEvent} {now deadline : Nat} {s : EventStream} (draining : s.phase = .draining deadline)
    (elapsed : deadline ≤ now) : s.turn bus now true = some (s.nudge now) := by
  simp [turn, draining, elapsed]

/-- On an open bus every turn leaves a window open or sends a nudge. -/
theorem turn_open {bus : Broadcast AppEvent} {now : Nat} {windowFirst : Bool} {s t : EventStream}
    (within : s.next ≤ bus.sent.length) (isOpen : bus.closed = false) (taken : s.turn bus now windowFirst = some t) :
    t.next ≤ bus.sent.length ∧ t.phase ≠ .ended ∧ (t.Draining ∨ s.nudges.length < t.nudges.length) := by
  have goesOn {next : Nat} (received : bus.recv eventCapacity s.next = some (.closed, next)) : False := by
    rcases Broadcast.recv_moves within received with ⟨-, -, other⟩ | ⟨-, -, closed, -⟩
    · exact other rfl
    · rw [isOpen] at closed
      cases closed
  unfold turn at taken
  split at taken
  · unfold awaitBurst at taken
    split at taken
    · rename_i received
      exact (goesOn received).elim
    · rename_i next more received
      obtain ⟨-, ahead, -⟩ | ⟨-, -, -, other⟩ := Broadcast.recv_moves within received
      · cases taken
        exact ⟨ahead, fun he => (by cases he), .inl ⟨_, rfl⟩⟩
      · exact absurd other more
    · cases taken
  · rename_i deadline draining
    split at taken
    · cases taken
      exact ⟨within, fun he => (by cases he), .inr (Nat.lt_succ_self _)⟩
    · unfold swallow at taken
      split at taken
      · rename_i received
        exact (goesOn received).elim
      · rename_i next more received
        obtain ⟨-, ahead, -⟩ | ⟨-, -, -, other⟩ := Broadcast.recv_moves within received
        · cases taken
          exact ⟨ahead, fun he => (by rw [draining] at he; cases he), .inl ⟨deadline, draining⟩⟩
        · exact absurd other more
      · cases taken
  · cases taken

end EventStream

/-- The bus, the clock and one stream. `sentAt` is a history: when each event was published. -/
structure EventFeed where
  bus : Broadcast AppEvent
  sentAt : List Nat
  now : Nat
  stream : EventStream

namespace EventFeed

def publish (w : EventFeed) : EventFeed :=
  { w with bus := w.bus.send .accountsChanged, sentAt := w.sentAt ++ [w.now] }

/-- Anything may be published while the bus is open, time passes, and the stream takes its turns. -/
inductive Step : EventFeed → EventFeed → Prop
  | publish {w : EventFeed} (isOpen : w.bus.closed = false) : Step w w.publish
  | close {w : EventFeed} : Step w { w with bus := { w.bus with closed := true } }
  | pass {w : EventFeed} (later : Nat) (forward : w.now ≤ later) : Step w { w with now := later }
  | turn {w : EventFeed} (windowFirst : Bool) {s : EventStream}
      (taken : w.stream.turn w.bus w.now windowFirst = some s) : Step w { w with stream := s }

def opening (bus : Broadcast AppEvent) (sentAt : List Nat) (now : Nat) : EventFeed :=
  ⟨bus, sentAt, now, .subscribe bus⟩

def Answered (w : EventFeed) (j : Nat) : Prop := ∃ t, w.sentAt[j]? = some t ∧ ∃ n ∈ w.stream.nudges, t ≤ n

/-- The event is still to be received, or the window it fell into is open. -/
def Owed (w : EventFeed) (j : Nat) : Prop := w.stream.next ≤ j ∨ w.stream.Draining

/-- Nudge after nudge with the whole window between them. -/
def Spaced (nudges : List Nat) : Prop := nudges.IsChain fun later earlier => earlier + debounce ≤ later

/-- What holds of a stream that was opened after `opened` events. -/
structure Sound (opened : Nat) (w : EventFeed) : Prop where
  times : w.sentAt.length = w.bus.sent.length
  past : ∀ t ∈ w.sentAt, t ≤ w.now
  within : w.stream.next ≤ w.bus.sent.length
  counted : opened + w.stream.nudges.length ≤ w.stream.next
  burst : w.stream.Draining → opened + w.stream.nudges.length < w.stream.next
  nudged : ∀ n ∈ w.stream.nudges, n ≤ w.now
  window : ∀ deadline, w.stream.phase = .draining deadline → Spaced (deadline :: w.stream.nudges)
  soon : ∀ deadline, w.stream.phase = .draining deadline → deadline ≤ w.now + debounce
  spaced : Spaced w.stream.nudges ∨
    (w.bus.closed = true ∧ w.stream.next = w.bus.sent.length ∧ ¬ w.stream.Draining ∧ Spaced w.stream.nudges.tail)
  ended : w.stream.phase = .ended → w.bus.closed = true ∧ w.stream.next = w.bus.sent.length
  answered : ∀ j, opened ≤ j → j < w.bus.sent.length → w.Answered j ∨ w.Owed j

variable {opened : Nat} {w w' : EventFeed}

private theorem sound_opening {bus : Broadcast AppEvent} {sentAt : List Nat} {now : Nat}
    (times : sentAt.length = bus.sent.length) (past : ∀ t ∈ sentAt, t ≤ now) :
    Sound bus.sent.length (opening bus sentAt now) where
  times := times
  past := past
  within := le_rfl
  counted := le_rfl
  burst := fun ⟨_, h⟩ => by cases h
  nudged _ h := by cases h
  window _ h := by cases h
  soon _ h := by cases h
  spaced := .inl .nil
  ended h := by cases h
  answered j later _ := .inr (.inl later)

theorem Spaced.nudge {deadline now : Nat} {nudges : List Nat} (h : Spaced (deadline :: nudges)) (elapsed : deadline ≤ now) :
    Spaced (now :: nudges) := by
  cases nudges with
  | nil => exact .singleton _
  | cons last rest =>
    obtain ⟨apart, rest⟩ := List.isChain_cons_cons.mp h
    exact List.isChain_cons_cons.mpr ⟨apart.trans elapsed, rest⟩

theorem Sound.publish (h : Sound opened w) (isOpen : w.bus.closed = false) : Sound opened w.publish where
  times := by simp [EventFeed.publish, Broadcast.send, h.times]
  past t ht := by
    rcases List.mem_append.mp ht with ht | ht
    · exact h.past t ht
    · exact (List.mem_singleton.mp ht).le
  within := by
    have := h.within
    simp only [EventFeed.publish, Broadcast.send, List.length_append, List.length_singleton]
    omega
  counted := h.counted
  burst := h.burst
  nudged := h.nudged
  window := h.window
  soon := h.soon
  spaced := by
    rcases h.spaced with spaced | ⟨closed, -⟩
    · exact .inl spaced
    · rw [isOpen] at closed
      cases closed
  ended he := by
    have := (h.ended he).1
    rw [isOpen] at this
    cases this
  answered j later below := by
    by_cases old : j < w.bus.sent.length
    · rcases h.answered j later old with ⟨t, ht, n, hn, le⟩ | owed
      · exact .inl ⟨t, List.getElem?_append_left (h.times ▸ old) ▸ ht, n, hn, le⟩
      · exact .inr owed
    · exact .inr (.inl (h.within.trans (not_lt.mp old)))

/-- The nudge answers all that has been received. -/
theorem Sound.nudge {deadline : Nat} (h : Sound opened w) (draining : w.stream.phase = .draining deadline)
    (due : deadline ≤ w.now ∨ (w.bus.closed = true ∧ w.stream.next = w.bus.sent.length)) :
    Sound opened { w with stream := w.stream.nudge w.now } where
  times := h.times
  past := h.past
  within := h.within
  counted := by
    have := h.burst ⟨deadline, draining⟩
    simp only [EventStream.nudge, List.length_cons]
    omega
  burst := fun ⟨_, he⟩ => by cases he
  nudged n hn := by
    rcases List.mem_cons.mp hn with rfl | hn
    · exact le_rfl
    · exact h.nudged n hn
  window _ he := by cases he
  soon _ he := by cases he
  spaced := by
    rcases due with elapsed | ⟨closed, all⟩
    · exact .inl ((h.window deadline draining).nudge elapsed)
    · exact .inr ⟨closed, all, fun ⟨_, he⟩ => (by cases he), (h.window deadline draining).of_cons⟩
  ended he := by cases he
  answered j later below := by
    by_cases received : j < w.stream.next
    · have known : j < w.sentAt.length := h.times ▸ below
      exact .inl ⟨w.sentAt[j], List.getElem?_eq_getElem known, w.now, List.mem_cons_self,
        h.past _ (List.getElem_mem known)⟩
    · exact .inr (.inl (not_lt.mp received))

/-- A burst begins or goes on. -/
theorem Sound.receive {next deadline : Nat} (h : Sound opened w) (forward : w.stream.next < next)
    (within : next ≤ w.bus.sent.length) (window : Spaced (deadline :: w.stream.nudges))
    (soon : deadline ≤ w.now + debounce) :
    Sound opened { w with stream := { w.stream with next := next, phase := .draining deadline } } where
  times := h.times
  past := h.past
  within := within
  counted := h.counted.trans forward.le
  burst _ := h.counted.trans_lt forward
  nudged := h.nudged
  window _ he := by
    cases he
    exact window
  soon _ he := by
    cases he
    exact soon
  spaced := .inl window.of_cons
  ended he := by cases he
  answered j _ _ := .inr (.inr ⟨deadline, rfl⟩)

theorem Sound.finish (h : Sound opened w) (waiting : w.stream.phase = .waiting) (closed : w.bus.closed = true)
    (all : w.stream.next = w.bus.sent.length) : Sound opened { w with stream := { w.stream with phase := .ended } } where
  times := h.times
  past := h.past
  within := h.within
  counted := h.counted
  burst := fun ⟨_, he⟩ => by cases he
  nudged := h.nudged
  window _ he := by cases he
  soon _ he := by cases he
  spaced := by
    rcases h.spaced with spaced | ⟨_, _, _, tail⟩
    · exact .inl spaced
    · exact .inr ⟨closed, all, fun ⟨_, he⟩ => (by cases he), tail⟩
  ended _ := ⟨closed, all⟩
  answered j later below := by
    rcases h.answered j later below with answered | ahead | ⟨_, he⟩
    · exact .inl answered
    · exact .inr (.inl ahead)
    · rw [waiting] at he
      cases he

theorem Sound.turn {windowFirst : Bool} {s : EventStream} (h : Sound opened w)
    (taken : w.stream.turn w.bus w.now windowFirst = some s) : Sound opened { w with stream := s } := by
  unfold EventStream.turn at taken
  split at taken
  · rename_i waiting
    unfold EventStream.awaitBurst at taken
    split at taken
    · rename_i received
      obtain ⟨-, -, other⟩ | ⟨-, all, closed, -⟩ := Broadcast.recv_moves h.within received
      · exact absurd rfl other
      · cases taken
        exact h.finish waiting closed all
    · rename_i next more received
      obtain ⟨forward, within, -⟩ | ⟨-, -, -, other⟩ := Broadcast.recv_moves h.within received
      · cases taken
        refine h.receive forward within ?_ le_rfl
        -- something was left to receive, so no window has been cut short
        rcases h.spaced with spaced | ⟨-, all, -, -⟩
        · cases nudges : w.stream.nudges with
          | nil => exact .singleton _
          | cons last rest =>
            rw [nudges] at spaced
            refine List.isChain_cons_cons.mpr ⟨Nat.add_le_add_right (h.nudged last ?_) _, spaced⟩
            rw [nudges]
            exact List.mem_cons_self
        · omega
      · exact absurd other more
    · cases taken
  · rename_i deadline draining
    split at taken
    · rename_i due
      cases taken
      exact h.nudge draining (.inl due.1)
    · unfold EventStream.swallow at taken
      split at taken
      · rename_i received
        obtain ⟨-, -, other⟩ | ⟨-, all, closed, -⟩ := Broadcast.recv_moves h.within received
        · exact absurd rfl other
        · cases taken
          exact h.nudge draining (.inr ⟨closed, all⟩)
      · rename_i next more received
        obtain ⟨forward, within, -⟩ | ⟨-, -, -, other⟩ := Broadcast.recv_moves h.within received
        · cases taken
          have on := h.receive forward within (h.window deadline draining) (h.soon deadline draining)
          rw [← draining] at on
          exact on
        · exact absurd other more
      · cases taken
  · cases taken

theorem Sound.step (h : Sound opened w) (step : Step w w') : Sound opened w' := by
  cases step with
  | publish isOpen => exact h.publish isOpen
  | close =>
    refine ⟨h.times, h.past, h.within, h.counted, h.burst, h.nudged, h.window, h.soon, ?_, fun he => ⟨rfl, (h.ended he).2⟩, h.answered⟩
    exact h.spaced.imp_right fun ⟨_, rest⟩ => ⟨rfl, rest⟩
  | pass later forward =>
    exact ⟨h.times, fun t ht => (h.past t ht).trans forward, h.within, h.counted, h.burst,
      fun n hn => (h.nudged n hn).trans forward, h.window,
      fun d hd => (h.soon d hd).trans (Nat.add_le_add_right forward _), h.spaced, h.ended, h.answered⟩
  | turn windowFirst taken => exact h.turn taken

theorem Sound.run (h : Sound opened w) (run : ReflTransGen Step w w') : Sound opened w' := by
  induction run with
  | refl => exact h
  | tail _ step ih => exact ih.step step

/-- A window that is open closes, and its nudge answers all that has been sent so far. -/
theorem Sound.drains {deadline : Nat} (h : Sound opened w) (draining : w.stream.phase = .draining deadline) :
    ∃ w', ReflTransGen Step w w' ∧ w'.bus = w.bus ∧ w'.now = max w.now deadline ∧
      ∀ j, opened ≤ j → j < w.bus.sent.length → w'.Answered j := by
  -- first the deadline passes, then the stream takes one turn after the other
  have passed : Step w { w with now := max w.now deadline } := .pass _ (le_max_left _ _)
  suffices key : ∀ left (v : EventFeed), v.bus.sent.length - v.stream.next = left → Sound opened v →
      v.stream.phase = .draining deadline → deadline ≤ v.now →
      ∃ v', ReflTransGen Step v v' ∧ v'.bus = v.bus ∧ v'.now = v.now ∧
        ∀ j, opened ≤ j → j < v.bus.sent.length → v'.Answered j by
    obtain ⟨w', run, bus, now, all⟩ := key _ _ rfl (h.step passed) draining (le_max_right _ _)
    exact ⟨w', .head passed run, bus, now, all⟩
  intro left
  induction left using Nat.strong_induction_on with
  | _ left ih =>
    intro v remaining sound draining elapsed
    have close (all : v.stream.next = v.bus.sent.length)
        (taken : v.stream.turn v.bus v.now false = some (v.stream.nudge v.now)) :
        ∃ v', ReflTransGen Step v v' ∧ v'.bus = v.bus ∧ v'.now = v.now ∧
          ∀ j, opened ≤ j → j < v.bus.sent.length → v'.Answered j := by
      refine ⟨_, .single (.turn false taken), rfl, rfl, fun j later below => ?_⟩
      rcases (sound.nudge draining (.inl elapsed)).answered j later below with answered | ahead | ⟨_, he⟩
      · exact answered
      · exact absurd (all.ge.trans ahead) (not_le.mpr below)
      · cases he
    cases received : v.bus.recv eventCapacity v.stream.next with
    | none =>
      apply close ((Broadcast.recv_eq_none sound.within).mp received).1
      simp [EventStream.turn, draining, elapsed, received]
    | some got =>
      obtain ⟨r, next⟩ := got
      have turned : v.stream.turn v.bus v.now false = v.stream.swallow v.bus v.now := by
        simp [EventStream.turn, draining, received]
      rcases Broadcast.recv_moves sound.within received with ⟨forward, within, other⟩ | ⟨-, all, -, rfl⟩
      · have taken : v.stream.turn v.bus v.now false = some { v.stream with next := next } := by
          rw [turned, EventStream.swallow, received]
          cases r with
          | closed => exact absurd rfl other
          | value a => rfl
          | lagged missed => rfl
        have step : Step v { v with stream := { v.stream with next := next } } := .turn false taken
        obtain ⟨v', run, bus, now, all⟩ := ih _ (by dsimp only; omega) _ rfl (sound.step step) draining elapsed
        exact ⟨v', .head step run, bus, now, all⟩
      · apply close all
        rw [turned, EventStream.swallow, received]

/-- A stream that waits opens a window for the first event that is left. -/
theorem Sound.opens (h : Sound opened w) (waiting : w.stream.phase = .waiting)
    (left : w.stream.next < w.bus.sent.length) :
    ∃ s, w.stream.turn w.bus w.now true = some s ∧ s.phase = .draining (w.now + debounce) := by
  cases received : w.bus.recv eventCapacity w.stream.next with
  | none =>
    have := ((Broadcast.recv_eq_none h.within).mp received).1
    omega
  | some got =>
    obtain ⟨r, next⟩ := got
    rcases Broadcast.recv_moves h.within received with ⟨-, -, other⟩ | ⟨-, all, -, -⟩
    · refine ⟨{ w.stream with next := next, phase := .draining (w.now + debounce) }, ?_, rfl⟩
      rw [EventStream.turn, waiting]
      dsimp only
      rw [EventStream.awaitBurst, received]
      cases r with
      | closed => exact absurd rfl other
      | value a => rfl
      | lagged missed => rfl
    · omega

end EventFeed

open EventFeed

/-- On every run each event since the subscription was followed by a nudge or has one coming, no nudge comes without
an event of its own, and two nudges are a window apart while the bus is open. A stream that has ended owes nothing. -/
theorem account_events_relayed {bus : Broadcast AppEvent} {sentAt : List Nat} {now : Nat} {w : EventFeed}
    (times : sentAt.length = bus.sent.length) (past : ∀ t ∈ sentAt, t ≤ now)
    (run : ReflTransGen Step (opening bus sentAt now) w) :
    (∀ j, bus.sent.length ≤ j → j < w.bus.sent.length → w.Answered j ∨ w.Owed j) ∧
      bus.sent.length + w.stream.nudges.length ≤ w.bus.sent.length ∧
      (w.bus.closed = false → Spaced w.stream.nudges) ∧ Spaced w.stream.nudges.tail ∧
      (w.stream.phase = .ended →
        w.bus.closed = true ∧ ∀ j, bus.sent.length ≤ j → j < w.bus.sent.length → w.Answered j) := by
  have h := (sound_opening times past).run run
  refine ⟨h.answered, h.counted.trans h.within, fun isOpen => ?_, ?_, fun ended => ⟨(h.ended ended).1, fun j later below => ?_⟩⟩
  · rcases h.spaced with spaced | ⟨closed, -⟩
    · exact spaced
    · rw [isOpen] at closed
      cases closed
  · rcases h.spaced with spaced | ⟨-, -, -, tail⟩
    · cases nudges : w.stream.nudges with
      | nil => exact .nil
      | cons last rest => exact (nudges ▸ spaced).of_cons
    · exact tail
  · rcases h.answered j later below with answered | ahead | ⟨_, he⟩
    · exact answered
    · exact absurd ((h.ended ended).2.ge.trans ahead) (not_le.mpr below)
    · rw [ended] at he
      cases he

private def sentAtOnce (events now : Nat) (stream : EventStream) : EventFeed :=
  ⟨⟨List.replicate events .accountsChanged, false⟩, List.replicate events 0, now, stream⟩

private def twoEvents : EventFeed := sentAtOnce 2 500 ⟨2, .waiting, [500]⟩

private theorem reaches_twoEvents : ReflTransGen Step (opening .empty [] 0) twoEvents := by
  have one : Step (sentAtOnce 0 0 ⟨0, .waiting, []⟩) (sentAtOnce 1 0 ⟨0, .waiting, []⟩) := .publish rfl
  have two : Step (sentAtOnce 1 0 ⟨0, .waiting, []⟩) (sentAtOnce 2 0 ⟨0, .waiting, []⟩) := .publish rfl
  have opened : Step (sentAtOnce 2 0 ⟨0, .waiting, []⟩) (sentAtOnce 2 0 ⟨1, .draining 500, []⟩) := .turn true (by decide)
  have swallowed : Step (sentAtOnce 2 0 ⟨1, .draining 500, []⟩) (sentAtOnce 2 0 ⟨2, .draining 500, []⟩) :=
    .turn false (by decide)
  have passed : Step (sentAtOnce 2 0 ⟨2, .draining 500, []⟩) (sentAtOnce 2 500 ⟨2, .draining 500, []⟩) :=
    .pass 500 (Nat.zero_le _)
  have nudged : Step (sentAtOnce 2 500 ⟨2, .draining 500, []⟩) twoEvents := .turn true (by decide)
  exact .head one (.head two (.head opened (.head swallowed (.head passed (.single nudged)))))

theorem account_events_relayed_two :
    (∀ j, 0 ≤ j → j < 2 → twoEvents.Answered j ∨ twoEvents.Owed j) ∧ 0 + 1 ≤ 2 ∧
      (twoEvents.bus.closed = false → Spaced [500]) ∧ Spaced [] ∧
      (twoEvents.stream.phase = .ended →
        twoEvents.bus.closed = true ∧ ∀ j, 0 ≤ j → j < 2 → twoEvents.Answered j) :=
  @account_events_relayed .empty [] 0 twoEvents rfl (by simp) reaches_twoEvents

/-- From every state a run publishes the nudge of each event within one window, whatever has come in between. -/
theorem account_event_nudge_reached {bus : Broadcast AppEvent} {sentAt : List Nat} {now : Nat} {w : EventFeed}
    (times : sentAt.length = bus.sent.length) (past : ∀ t ∈ sentAt, t ≤ now)
    (run : ReflTransGen Step (opening bus sentAt now) w) :
    ∃ w', ReflTransGen Step w w' ∧ w'.bus = w.bus ∧ w'.now ≤ w.now + debounce ∧
      ∀ j, bus.sent.length ≤ j → j < w.bus.sent.length → w'.Answered j := by
  have h := (sound_opening times past).run run
  cases phase : w.stream.phase with
  | draining deadline =>
    obtain ⟨w', on, same, clock, all⟩ := h.drains phase
    exact ⟨w', on, same, clock.trans_le (max_le (Nat.le_add_right _ _) (h.soon deadline phase)), all⟩
  | waiting =>
    by_cases left : w.stream.next < w.bus.sent.length
    · obtain ⟨s, taken, draining⟩ := h.opens phase left
      have step : Step w { w with stream := s } := .turn true taken
      obtain ⟨w', on, same, clock, all⟩ := (h.step step).drains draining
      exact ⟨w', .head step on, same, clock.trans_le (max_le (Nat.le_add_right _ _) le_rfl), all⟩
    · refine ⟨w, .refl, rfl, Nat.le_add_right _ _, fun j later below => ?_⟩
      rcases h.answered j later below with answered | ahead | ⟨_, he⟩
      · exact answered
      · exact absurd (below.trans_le (not_lt.mp left)) (not_lt.mpr ahead)
      · rw [phase] at he
        cases he
  | ended =>
    refine ⟨w, .refl, rfl, Nat.le_add_right _ _, fun j later below => ?_⟩
    rcases h.answered j later below with answered | ahead | ⟨_, he⟩
    · exact answered
    · exact absurd ((h.ended phase).2.ge.trans ahead) (not_le.mpr below)
    · rw [phase] at he
      cases he

theorem account_event_nudge_reached_two :
    ∃ w', ReflTransGen Step twoEvents w' ∧ w'.bus = twoEvents.bus ∧ w'.now ≤ 500 + debounce ∧
      ∀ j, 0 ≤ j → j < 2 → w'.Answered j :=
  @account_event_nudge_reached .empty [] 0 twoEvents rfl (by simp) reaches_twoEvents

end MailKeep
