import MailKeep.Search.AccountScope

/-! What the date filters match: days of the calendar against instants on the index's clock, which counts nanoseconds in
an `i64`. -/
namespace MailKeep

/-- `DateTime::from_timestamp_secs` in a release build. -/
def wrappingNanos (seconds : Int) : Int := (seconds * 1000000000).bmod 18446744073709551616

/-- Which of the spans of `2^64` nanoseconds the second lies in; the epoch is in the middle of span `0`. -/
def clockSpan (seconds : Int) : Int := (seconds * 1000000000 + 9223372036854775808) / 18446744073709551616

/-- The full spans from the earlier to the later one take no longer than the time between them. -/
def KeepsSide (sent bound : Int) : Prop :=
  if sent < bound then (clockSpan bound - clockSpan sent) * 18446744073709551616 < (bound - sent) * 1000000000
  else (clockSpan sent - clockSpan bound) * 18446744073709551616 ≤ (sent - bound) * 1000000000

instance (sent bound : Int) : Decidable (KeepsSide sent bound) := inferInstanceAs (Decidable (ite _ _ _))

/-- The clock reads what is left of the second after its span. -/
private theorem wrappingNanos_eq (seconds : Int) :
    wrappingNanos seconds = seconds * 1000000000 - clockSpan seconds * 18446744073709551616 := by
  unfold wrappingNanos clockSpan Int.bmod
  dsimp only
  split <;> omega

/-- The clock keeps the order of two instants just as `KeepsSide` says. -/
private theorem wrappingNanos_lt_iff {sent bound : Int} :
    (wrappingNanos sent < wrappingNanos bound ↔ sent < bound) ↔ KeepsSide sent bound := by
  rw [wrappingNanos_eq, wrappingNanos_eq, KeepsSide]
  split
  · rename_i before
    rw [iff_true_right before]
    omega
  · rename_i after
    rw [iff_false_right after, not_lt]
    omega

def DateTimeUtc.day (sent : DateTimeUtc) : NaiveDate := DateTimeUtc.timestamp sent / 86400

/-- Where the day of an instant lies: before the date, on it or after it. -/
def boundOf (date : NaiveDate) (sent : DateTimeUtc) : DateBound :=
  if DateTimeUtc.day sent < date then .before else if DateTimeUtc.day sent = date then .on else .after

/-- The clock keeps the message on its side of the date's start and of its end; the last date has no end. -/
def DateInOrder (lib : TextLibrary) (date : NaiveDate) (sent : DateTimeUtc) : Prop :=
  KeepsSide (DateTimeUtc.timestamp sent) (date * 86400) ∧
    if date < lib.maxDate then KeepsSide (DateTimeUtc.timestamp sent) ((date + 1) * 86400)
    else DateTimeUtc.day sent ≠ date

variable {lib : TextLibrary} {tantivy : Tantivy} {date : NaiveDate} {sent : DateTimeUtc}

private theorem day_lt_iff : DateTimeUtc.day sent < date ↔ DateTimeUtc.timestamp sent < date * 86400 :=
  Int.ediv_lt_iff_lt_mul (by decide)

variable (date sent) in
private theorem boundOf_before : boundOf date sent = .before ↔ DateTimeUtc.timestamp sent < date * 86400 := by
  rw [← day_lt_iff, boundOf]
  split_ifs <;> simp_all

variable (date sent) in
private theorem boundOf_after : boundOf date sent = .after ↔ ¬ DateTimeUtc.timestamp sent < (date + 1) * 86400 := by
  rw [← day_lt_iff, Int.lt_add_one_iff, le_iff_lt_or_eq, boundOf]
  split_ifs <;> simp_all

private theorem boundOf_on : boundOf date sent = .on ↔ DateTimeUtc.day sent = date := by
  unfold boundOf
  split_ifs with before
  · simpa using before.ne
  · simp_all
  · simp_all

/-- The three ranges of a date over the stored values. -/
private theorem dateRangeQuery_iff {msg : Message} {body : String} (dated : msg.sentDate = some sent)
    (bound : DateBound) :
    dateRangeQuery lib tantivy bound date (toDocument tantivy msg body) = true ↔
      let value := tantivy.fromTimestampSecs (DateTimeUtc.timestamp sent)
      let start := dayStart tantivy date
      let next := (lib.succOpt date).elim start (dayStart tantivy)
      match bound with
      | .before => value < start
      | .on => ¬ value < start ∧ value < next
      | .after => ¬ value < next := by
  have stored : (toDocument tantivy msg body).sentDate = some
      (tantivy.fromTimestampSecs (DateTimeUtc.timestamp sent)) := by
    rw [toDocument, dated]
    rfl
  cases bound <;> simp [dateRangeQuery, RangeQuery, stored]

/-- A day that is neither before the date nor after it is the date. -/
private theorem boundOf_cases : boundOf date sent = .on ↔ boundOf date sent ≠ .before ∧ boundOf date sent ≠ .after := by
  cases boundOf date sent <;> simp

/-- Exactly one of the three filters of a date matches a dated message, the one for its day, just where the clock keeps the
message in order with the date. -/
theorem date_filters_partition_iff (lib : TextLibrary) (tantivy : Tantivy) (date : NaiveDate)
    (msg : Message) (body : String)
    (sent : DateTimeUtc) (clock : tantivy.fromTimestampSecs = wrappingNanos) (dated : msg.sentDate = some sent) :
    (∀ bound, dateRangeQuery lib tantivy bound date (toDocument tantivy msg body) = true ↔ bound = boundOf date sent) ↔
      DateInOrder lib date sent := by
  simp only [dateRangeQuery_iff dated, clock, dayStart, DateInOrder, ← wrappingNanos_lt_iff]
  have starts := boundOf_before date sent
  have ends := boundOf_after date sent
  by_cases last : date < lib.maxDate
  · have next : lib.succOpt date = some (date + 1) := if_pos last
    rw [if_pos last]
    simp only [next, Option.elim_some, dayStart, clock]
    constructor
    · intro matches_
      refine ⟨(matches_ .before).trans (eq_comm.trans starts), not_iff_not.mp ?_⟩
      exact (matches_ .after).trans (eq_comm.trans ends)
    · rintro ⟨lower, upper⟩ bound
      cases bound with
      | before => exact lower.trans (starts.symm.trans eq_comm)
      | after => exact (not_congr upper).trans (ends.symm.trans eq_comm)
      | on =>
        rw [eq_comm, boundOf_cases, ne_eq, ne_eq, starts, ends, not_not]
        exact and_congr (not_congr lower) upper
  · have next : lib.succOpt date = none := if_neg last
    rw [if_neg last]
    simp only [next, Option.elim_none, not_and_self_iff]
    constructor
    · intro matches_
      refine ⟨(matches_ .before).trans (eq_comm.trans starts), fun on => ?_⟩
      exact (matches_ .on).mpr (boundOf_on.mpr on).symm
    · rintro ⟨lower, other⟩ bound
      have never : boundOf date sent ≠ .on := fun on => other (boundOf_on.mp on)
      cases bound with
      | before => exact lower.trans (starts.symm.trans eq_comm)
      | on => exact iff_of_false id never.symm
      | after =>
        have split : boundOf date sent = .after ↔ ¬ boundOf date sent = .before := by
          revert never
          cases boundOf date sent <;> simp
        exact (not_congr lower).trans ((not_congr starts).symm.trans (split.symm.trans eq_comm))

namespace TwoAccounts

/-- The engine of a release build. -/
def releaseEngine : Tantivy := { engine with fromTimestampSecs := wrappingNanos }

def newYear : Message := { message 10 1 with sentDate := some 1704067200000000000 }

end TwoAccounts

theorem date_filters_partition_newYear :
    let found bound := dateRangeQuery TwoAccounts.textLibrary TwoAccounts.releaseEngine bound 19722
      (toDocument TwoAccounts.releaseEngine TwoAccounts.newYear "")
    found .after = true ∧ ¬ found .before = true ∧ ¬ found .on = true :=
  have partition := (date_filters_partition_iff TwoAccounts.textLibrary TwoAccounts.releaseEngine 19722 TwoAccounts.newYear ""
    1704067200000000000 rfl rfl).mpr (by unfold DateInOrder; decide)
  ⟨(partition .after).mpr (by decide), fun before => absurd ((partition .before).mp before) (by decide),
    fun on => absurd ((partition .on).mp on) (by decide)⟩

/-- `before:9999-01-01` misses a message of 2024 and `after:9999-01-01` matches it. -/
theorem before_9999_misses : ¬ ∀ bound, dateRangeQuery TwoAccounts.textLibrary TwoAccounts.releaseEngine bound 2932532
      (toDocument TwoAccounts.releaseEngine TwoAccounts.newYear "") = true ↔ bound = boundOf 2932532 1704067200000000000 := by
  intro partition
  exact absurd ((partition .before).mpr (by decide)) (by decide)

end MailKeep
