import SomeIpGateway.FixedWindow

/-!
# The flood guard of the TCP transport

`TcpTransport::rxLoop` counts the frames of a connection as their SOF is read and bans the
sender of too many. The members are modelled with the times in milliseconds, as
`duration_cast` delivers the difference that the guard looks at. The guard is the counter
of arrivals in fixed windows of 5000 ms with the limit 100.
-/
namespace SomeIpGateway.TcpFloodGuard
open FixedWindow

/-- The members of `TcpTransport` that the guard uses. -/
structure TcpTransport where
  packetCountInSecond : ℕ
  lastResetTime : ℕ
  deriving Repr, DecidableEq

namespace TcpTransport

def enterLoop (now : ℕ) : TcpTransport := ⟨0, now⟩

/-- The guard of one turn: whether the sender is banned, and the members after it. -/
def guard (tr : TcpTransport) (now : ℕ) : Bool × TcpTransport :=
  let duration := now - tr.lastResetTime
  let tr :=
    if 5000 ≤ duration then { tr with packetCountInSecond := 0, lastResetTime := now } else tr
  let tr := { tr with packetCountInSecond := tr.packetCountInSecond + 1 }
  (100 < tr.packetCountInSecond, tr)

/-- The loop over the times at which a SOF is read: the position of the frame for which the
sender is banned, which ends the loop. -/
def bannedAt (tr : TcpTransport) : List ℕ → Option ℕ
  | [] => none
  | now :: times =>
    if (tr.guard now).1 then some 0 else (bannedAt (tr.guard now).2 times).map (· + 1)

/-- The members as a counter. -/
def counter (tr : TcpTransport) : Counter := ⟨tr.packetCountInSecond, tr.lastResetTime⟩

theorem counter_guard (tr : TcpTransport) (now : ℕ) :
    (tr.guard now).2.counter = tr.counter.tick 5000 now := by
  rw [guard, counter, counter, Counter.tick]
  by_cases hover : 5000 ≤ now - tr.lastResetTime
  · simp only [if_pos hover, Nat.zero_add]
  · simp only [if_neg hover]

theorem guard_bans (tr : TcpTransport) (now : ℕ) :
    (tr.guard now).1 = true ↔ 100 < (tr.counter.tick 5000 now).count := by
  rw [← counter_guard]
  exact decide_eq_true_iff

/-- The guard bans where the counter trips. -/
theorem bannedAt_eq_trip (tr : TcpTransport) (times : List ℕ) :
    tr.bannedAt times = trip 5000 100 tr.counter times := by
  induction times generalizing tr with
  | nil => rfl
  | cons now times ih =>
    rw [bannedAt, trip, ih, counter_guard]
    simp only [guard_bans]

end TcpTransport
open TcpTransport

/-- The frames arrive within less than the given time of one another. -/
def Within (ms : ℕ) (times : List ℕ) : Prop := ∀ s ∈ times, ∀ t ∈ times, s < t + ms

/-- If the sender is banned, the frame and the hundred before it arrived within less than
5000 ms; if 201 frames in a row do so, the sender is banned by the last of them; but 200
frames may arrive within less than 5000 ms without a ban. -/
theorem floods_banned {start : ℕ} {times : List ℕ}
    (hsorted : (start :: times).Pairwise (· ≤ ·)) :
    (∀ i, (enterLoop start).bannedAt times = some i →
      ∃ old recent now rest, times = old ++ recent ++ now :: rest ∧ (old ++ recent).length = i ∧
        recent.length = 100 ∧ Within 5000 (recent ++ [now])) ∧
    (∀ before burst rest, times = before ++ burst ++ rest → burst.length = 201 →
      Within 5000 burst →
      ∃ i, (enterLoop start).bannedAt times = some i ∧ i < before.length + burst.length) ∧
    ∃ calm, (0 :: calm).Pairwise (· ≤ ·) ∧ calm.length = 200 ∧ Within 5000 calm ∧
      (enterLoop 0).bannedAt calm = none := by
  simp only [bannedAt_eq_trip]
  refine ⟨fun i h => burst_of_trip (by decide) hsorted h, ?_, ?_⟩
  · rintro before burst rest rfl hlen hnear
    exact trip_by_end_of_burst start (by omega) hnear rest
  · obtain ⟨hcalm, hlen, hnear⟩ := straddle_burst 100 (show 1 < 5000 by decide)
    exact ⟨_, hcalm, hlen, hnear, trip_straddle (by decide) (by decide)⟩

/-- 201 frames within a millisecond are banned. -/
theorem floods_banned_burst : (enterLoop 7).bannedAt (List.replicate 201 8) ≠ none := by
  have hsorted : (7 :: List.replicate 201 8).Pairwise (· ≤ ·) := by
    refine List.pairwise_cons.mpr ⟨fun t ht => ?_, List.pairwise_replicate.mpr (Or.inr le_rfl)⟩
    rw [List.eq_of_mem_replicate ht]
    decide
  have hnear : Within 5000 (List.replicate 201 8) := by
    intro s hs t ht
    rw [List.eq_of_mem_replicate hs, List.eq_of_mem_replicate ht]
    decide
  obtain ⟨i, hi, -⟩ := (floods_banned hsorted).2.1 [] (List.replicate 201 8) []
    (List.append_nil _).symm List.length_replicate hnear
  rw [hi]
  exact Option.some_ne_none i

end SomeIpGateway.TcpFloodGuard
